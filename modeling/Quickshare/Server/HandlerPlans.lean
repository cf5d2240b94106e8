import Quickshare.Server.Plan

/-! The plan of every handler: what it sends to whom, and the database it
leaves, read off the tables and the clients before it runs. -/

namespace Quickshare

open Bytes

variable {s t : Server} {c i : Slot} {db : Database} {Item : Type}

/-- One packet for each item whose client is connected, in order. -/
def toConnected (s : Server) (key : Item → ClientId) (packet : Item → Packet → Packet)
    (items : List Item) : Plan :=
  items.flatMap fun x => ((clientFindById s.clients (key x)).map (·, packet x)).toList

theorem mem_toConnected {key : Item → ClientId} {packet : Item → Packet → Packet}
    {items : List Item} :
    i ∈ (toConnected s key packet items).map Prod.fst ↔
      ∃ x ∈ items, clientFindById s.clients (key x) = some i := by
  simp only [toConnected, List.map_flatMap, List.mem_flatMap]
  refine exists_congr fun x => and_congr_right fun _ => ?_
  cases clientFindById s.clients (key x) <;> simp [eq_comm]

theorem toConnected_same (same : SameClients s t) (key : Item → ClientId)
    (packet : Item → Packet → Packet) (items : List Item) :
    toConnected t key packet items = toConnected s key packet items := by
  simp only [toConnected, same.findById]

/-- A loop over a cursor that sends one packet for each connected client. -/
theorem toConnected_eq {loop : Server → Item → Run Server} (key : Item → ClientId)
    (packet : Item → Packet → Packet)
    (each : ∀ t x, loop t x = match clientFindById t.clients (key x) with
      | none => .ok t
      | some i => t.send i (packet x)) (s : Server) (items : List Item) :
    items.foldlM loop s = s.sendAll (toConnected s key packet items) := by
  induction items generalizing s with
  | nil => rfl
  | cons x rest ih =>
    rw [List.foldlM_cons, each]
    cases found : clientFindById s.clients (key x) with
    | none =>
      have skip : toConnected s key packet (x :: rest) = toConnected s key packet rest := by
        simp [toConnected, found]
      rw [skip]
      exact ih s
    | some i =>
      have first : toConnected s key packet (x :: rest) =
          (i, packet x) :: toConnected s key packet rest := by
        simp [toConnected, found]
      dsimp only
      rw [first, Server.sendAll_cons, Server.send_eq]
      by_cases full : (s.client i).msgQueue.full = true
      · rw [if_pos full, if_pos full]
        rfl
      · rw [if_neg full, if_neg full, ← toConnected_same (s.pushed_same i (packet x))]
        exact ih _

theorem toConnected_sends {loop : Server → Item → Run Server} (key : Item → ClientId)
    (packet : Item → Packet → Packet)
    (each : ∀ t x, loop t x = match clientFindById t.clients (key x) with
      | none => .ok t
      | some i => t.send i (packet x)) (s : Server) (items : List Item) :
    Sends s (toConnected s key packet items) s.db (items.foldlM loop s) := by
  rw [toConnected_eq key packet each]
  exact .sendAll s _

/-- What `send_transfer_state` writes. -/
def transferState (sender : ClientId) (tId : TransferId) (type : PacketType) (old : Packet) :
    Packet :=
  ((Packet.packetHdr type transferStateSize old).storeInt64 8 tId).storeInt64 16 sender

theorem sendSingleUser_sends (s : Server) (recp c1 : Slot) (type : PacketType) :
    Sends s [(recp, fun _ => singleUserPacket (s.client c1) type)] s.db
      (sendSingleUser s recp c1 type) :=
  .send s recp _

theorem serverResponse_sends (s : Server) (c : Slot) (type : PacketType) :
    Sends s [(c, Packet.packetHdr type 0)] s.db (serverResponse s c type) :=
  .send s c _

theorem singleUserPacket_same (same : SameClients s t) (c : Slot) (type : PacketType) :
    singleUserPacket (t.client c) type = singleUserPacket (s.client c) type :=
  same.field c (singleUserPacket · type) fun _ => rfl

/-! `send_session_users` -/

/-- The clients told about `c`, and `c` about them. -/
def Server.peer (s : Server) (c i : Slot) : Bool :=
  (s.client i).id ≠ (s.client c).id ∧ (s.client i).state = .complete ∧
    (s.client i).sessionId = (s.client c).sessionId

theorem SameClients.peer (same : SameClients s t) (c i : Slot) : t.peer c i = s.peer c i := by
  simp only [Server.peer, same.id, same.state, same.sessionId]

/-- What the `count`-th match adds to the packet for `c`. -/
def addUser (p : Packet) (entry : Client × Nat) : Packet :=
  ((p.write (8 + pcNameMaxLen * entry.2) entry.1.name).storeInt64 (520 + 8 * entry.2)
    entry.1.id).store 776 1 (p.newUsersLen + 1)

def newUsersPacket (users : List Client) (old : Packet) : Packet :=
  users.zipIdx.foldl addUser (Packet.packetHdr .serverNewUsers newUsersSize old)

def introPlan (s : Server) (c : Slot) (peers : List Slot) : Plan :=
  if peers = [] then []
  else (c, newUsersPacket (peers.map s.client)) ::
    peers.map fun i => (i, fun _ => singleUserPacket (s.client c) .serverNewUsers)

theorem Server.fill_client_of_ne (s : Server) (k : Nat) (g : Packet → Packet) (other : i ≠ c) :
    (s.fill c k g).client i = s.client i := by
  rw [fill, client_modify_of_ne _ _ other]

theorem Server.pushed_client_of_ne (s : Server) (f : Packet → Packet) (other : i ≠ c) :
    (s.pushed c f).client i = s.client i :=
  s.client_modify_of_ne (fun client => { client with msgQueue := client.msgQueue.pushed f }) other

theorem Server.fill_same (s : Server) (c : Slot) (k : Nat) (g : Packet → Packet) :
    SameClients s (s.fill c k g) :=
  s.clients.modify_field c (fun client => { client with msgQueue := client.msgQueue.fill k g })
    Client.bare fun _ => rfl

theorem Server.fill_pushed (s : Server) (k : Nat) (f g : Packet → Packet) (other : i ≠ c) :
    (s.fill c k g).pushed i f = (s.pushed i f).fill c k g := by
  have sessions := (s.fill_same c k g).sessions
  rw [pushed, sessions]
  simp only [fill, modify]
  rw [s.clients.modify_comm _ _ (Ne.symm other)]
  rfl

theorem Server.fill_sendAll (s : Server) (k : Nat) (g : Packet → Packet) (plan : Plan)
    (other : c ∉ plan.map Prod.fst) (sent : s.sendAll plan = .ok t) :
    (s.fill c k g).sendAll plan = .ok (t.fill c k g) := by
  induction plan generalizing s with
  | nil => cases sent; rfl
  | cons head rest ih =>
    obtain ⟨i, f⟩ := head
    obtain ⟨ne, later⟩ : i ≠ c ∧ c ∉ rest.map Prod.fst := by
      simpa [eq_comm, not_or] using other
    rw [sendAll_cons] at sent ⊢
    rw [s.fill_client_of_ne k g ne]
    split at sent
    · cases sent
    · rename_i room
      rw [if_neg room, s.fill_pushed k f g ne]
      exact ih _ later sent

theorem Server.pushed_fill (s : Server) (c : Slot) (f g : Packet → Packet) :
    (s.pushed c f).fill c (s.client c).msgQueue.head g = s.pushed c (g ∘ f) := by
  simp [pushed, fill, modify, ClientList.modify, client, Queue.pushed, Queue.fill]

/-- Filling the slot `c` got first is as good as having sent the final packet. -/
theorem Server.sendAll_fill {rest : Plan} (s : Server) (f g : Packet → Packet)
    (other : c ∉ rest.map Prod.fst) (sent : s.sendAll ((c, f) :: rest) = .ok t) :
    s.sendAll ((c, g ∘ f) :: rest) = .ok (t.fill c (s.client c).msgQueue.head g) := by
  rw [sendAll_cons] at sent ⊢
  split at sent
  · cases sent
  · rename_i room
    rw [if_neg room, ← s.pushed_fill]
    exact Server.fill_sendAll (s.pushed c f) _ g rest other sent

theorem Server.fill_fill (s : Server) (k : Nat) (f g : Packet → Packet) :
    (s.fill c k f).fill c k g = s.fill c k (g ∘ f) := by
  simp [fill, modify, ClientList.modify, Queue.fill]

theorem Server.enqueue_full (full : (s.client c).msgQueue.full = true) :
    s.enqueue c = .error (.packet, s) := by
  simp [enqueue, Queue.enqueue, full]

/-- The slot `enqueue` hands out, once filled, is a sent packet. -/
theorem Server.enqueue_room (room : ¬ (s.client c).msgQueue.full = true) :
    ∃ u, s.enqueue c = .ok ((s.client c).msgQueue.head, u) ∧
      ∀ f, u.fill c (s.client c).msgQueue.head f = s.pushed c f := by
  have taken : (s.client c).msgQueue.enqueue = some ((s.client c).msgQueue.head,
      { (s.client c).msgQueue with
        head := ((s.client c).msgQueue.head + 1) &&& ((s.client c).msgQueue.len - 1)
        count := (s.client c).msgQueue.count + 1 }) := if_neg room
  refine ⟨_, by simp only [enqueue, taken]; rfl, fun f => ?_⟩
  simp [fill, pushed, modify, ClientList.modify, Queue.pushed, client]

theorem newUsersPacket_concat (users : List Client) (user : Client) :
    newUsersPacket (users ++ [user]) =
      (fun p => addUser p (user, users.length)) ∘ newUsersPacket users := by
  funext p
  simp [newUsersPacket, List.zipIdx_append]

theorem introPlan_concat (s : Server) (c : Slot) (peers : List Slot) (i : Slot) :
    introPlan s c (peers ++ [i]) =
      (c, newUsersPacket ((peers ++ [i]).map s.client)) ::
        peers.map (fun i => (i, fun _ => singleUserPacket (s.client c) .serverNewUsers)) ++
      [(i, fun _ => singleUserPacket (s.client c) .serverNewUsers)] := by
  simp [introPlan]

/-- The packet for `c` is filled; what is left of the turn tells the peer. -/
theorem sendSessionUser_tell (s : Server) (c i : Slot) (front : Plan)
    (sent : s.sendAll front = .ok t) :
    sendSingleUser t i c .serverNewUsers =
      s.sendAll (front ++ [(i, fun _ => singleUserPacket (s.client c) .serverNewUsers)]) := by
  have same : SameClients s t := by
    have kept := s.sendAll_same front
    rwa [sent] at kept
  rw [Server.sendAll_append, sent]
  simp only [Except.bind]
  rw [Server.sendAll_cons, sendSingleUser, Server.send_eq, singleUserPacket_same same]
  rfl

/-- One turn of the loop sends one more peer its packet and completes `c`'s. -/
theorem sendSessionUser_peer (s : Server) (c i : Slot) (peers : List Slot)
    (valid : ∀ j ∈ peers, s.peer c j = true) (next : s.peer c i = true)
    (sent : s.sendAll (introPlan s c peers) = .ok t) :
    sendSessionUser c (t, if peers = [] then none else some (s.client c).msgQueue.head,
        peers.length) i =
      (s.sendAll (introPlan s c (peers ++ [i]))).map
        (·, some (s.client c).msgQueue.head, (peers ++ [i]).length) := by
  have same : SameClients s t := by
    have kept := s.sendAll_same (introPlan s c peers)
    rwa [sent] at kept
  have cond : (t.client i).id ≠ (t.client c).id ∧ (t.client i).state = .complete ∧
      (t.client i).sessionId = (t.client c).sessionId := by
    simpa [Server.peer] using (same.peer c i).trans next
  have user : (fun p => addUser p (t.client i, peers.length)) =
      fun p => addUser p (s.client i, (peers.map s.client).length) := by
    rw [List.length_map]
    exact same.field i (fun client => fun p => addUser p (client, peers.length)) fun _ => rfl
  have grown : newUsersPacket ((peers ++ [i]).map s.client) =
      (fun p => addUser p (t.client i, peers.length)) ∘ newUsersPacket (peers.map s.client) := by
    rw [user, List.map_append, List.map_singleton, newUsersPacket_concat]
  simp only [sendSessionUser, if_pos cond]
  rw [introPlan_concat]
  by_cases first : peers = []
  · subst first
    obtain rfl : s = t := Except.ok.inj sent
    by_cases full : (s.client c).msgQueue.full = true
    · simp [Server.enqueue_full full, Server.sendAll_cons, full, bind, Except.bind, Except.map]
    · obtain ⟨u, taken, filled⟩ := Server.enqueue_room full
      have added : (u.fill c (s.client c).msgQueue.head
            (Packet.packetHdr .serverNewUsers newUsersSize)).fill c (s.client c).msgQueue.head
            (fun p => addUser p (s.client i, 0)) =
          s.pushed c (newUsersPacket ([i].map s.client)) := by
        rw [Server.fill_fill, filled]
        exact congrArg (s.pushed c) grown.symm
      have told := sendSessionUser_tell s c i [(c, newUsersPacket ([i].map s.client))]
        (by rw [Server.sendAll_cons, if_neg full, Server.sendAll_nil])
      rw [← added] at told
      simp only [List.cons_append, List.nil_append] at told
      simp only [List.map_nil, List.cons_append, List.nil_append, taken, if_true, bind,
        Except.bind, pure, Except.pure]
      rw [← told]
      rfl
  · have ne : c ∉ peers := fun member => by simpa [Server.peer] using valid c member
    have other : c ∉ (peers.map fun i => (i, fun _ : Packet =>
        singleUserPacket (s.client c) .serverNewUsers)).map Prod.fst := by
      simpa using ne
    rw [introPlan, if_neg first] at sent
    have filled := Server.sendAll_fill s _ (fun p => addUser p (t.client i, peers.length)) other sent
    rw [← grown] at filled
    have told := sendSessionUser_tell s c i _ filled
    rw [if_neg first, ← told]
    simp only [bind, Except.bind, pure, Except.pure, Except.map, List.length_append]
    rfl

theorem sendSessionUser_other (s : Server) (c i : Slot) (slot : Option Nat) (count : Nat)
    (other : s.peer c i = false) :
    sendSessionUser c (s, slot, count) i = .ok (s, slot, count) := by
  have skip : ¬ ((s.client i).id ≠ (s.client c).id ∧ (s.client i).state = .complete ∧
      (s.client i).sessionId = (s.client c).sessionId) := by
    simpa [Server.peer] using other
  simp only [sendSessionUser, if_neg skip]
  rfl

theorem sendSessionUsers_loop (s : Server) (c : Slot) (peers rest : List Slot)
    (valid : ∀ j ∈ peers, s.peer c j = true)
    (sent : s.sendAll (introPlan s c peers) = .ok t) :
    Sends s (introPlan s c (peers ++ rest.filter (s.peer c))) s.db
      ((rest.foldlM (sendSessionUser c)
        (t, if peers = [] then none else some (s.client c).msgQueue.head, peers.length)).map
          Prod.fst) := by
  induction rest generalizing peers t with
  | nil =>
    refine ⟨fun u same => ?_, fun fault u same => by cases same⟩
    cases same
    refine ⟨t, by simpa using sent, ?_⟩
    have kept := s.sendAll_db (introPlan s c peers)
    rw [sent] at kept
    simp [← kept, Run.state]
  | cons i rest ih =>
    rw [List.foldlM_cons]
    have same : SameClients s t := by
      have kept := s.sendAll_same (introPlan s c peers)
      rwa [sent] at kept
    by_cases next : s.peer c i = true
    · rw [sendSessionUser_peer s c i peers valid next sent, List.filter_cons_of_pos next]
      have longer : ∀ j ∈ peers ++ [i], s.peer c j = true := by
        simpa [or_imp, forall_and] using ⟨valid, next⟩
      have whole : peers ++ i :: rest.filter (s.peer c) = (peers ++ [i]) ++ rest.filter (s.peer c) := by
        simp
      rw [whole]
      cases reached : s.sendAll (introPlan s c (peers ++ [i])) with
      | ok u =>
        have later := ih (peers ++ [i]) longer reached
        simpa [Except.map, bind, Except.bind] using later
      | error failed =>
        obtain ⟨fault, u⟩ := failed
        refine ⟨fun u same => (by cases same), fun fault u same => ?_⟩
        cases same
        refine ⟨introPlan s c (peers ++ [i]) ++ (rest.filter (s.peer c)).map (·, id), u, ?_, ?_, rfl,
          rfl, rfl, ?_⟩
        · simp [introPlan]
        · rw [Server.sendAll_append, reached]
          rfl
        · have kept := s.sendAll_same (introPlan s c (peers ++ [i]))
          rwa [reached] at kept
    · have other : t.peer c i = false := by
        rw [same.peer]
        simpa using next
      rw [sendSessionUser_other t c i _ _ other, List.filter_cons_of_neg next]
      exact ih peers valid sent

theorem sendSessionUsers_sends (s : Server) (c : Slot) :
    Sends s (introPlan s c ((List.finRange maxClients).filter (s.peer c))) s.db
      (sendSessionUsers s c) := by
  have loop := sendSessionUsers_loop s c [] (List.finRange maxClients) (by simp) rfl
  simpa [sendSessionUsers, Except.map, bind, Except.bind, pure, Except.pure] using loop

/-! `packet_data` and `packet_complete` -/

/-- Copies of `p` for the clients that accepted `tId`. -/
def relayPlan (s : Server) (p : Packet) (db : Database) (tId : TransferId) : Plan × Database :=
  let (recps, db) := dbGetClientAllAccepted db tId
  (toConnected s id (fun _ _ => p) recps, db)

theorem relay_sends (s : Server) (p : Packet) (db : Database) (tId : TransferId) :
    Sends s (relayPlan s p db tId).1 (relayPlan s p db tId).2
      ((dbGetClientAllAccepted db tId).1.foldlM (relay p)
        { s with db := (dbGetClientAllAccepted db tId).2 }) :=
  .setDb (toConnected_sends id (fun _ _ => p) (fun _ _ => rfl)
    { s with db := (dbGetClientAllAccepted db tId).2 } _)

def dataPlan (s : Server) (c : Slot) : Plan × Database :=
  let p := (s.client c).decryptBuf.packet
  relayPlan s p s.db p.tId

theorem packetData_sends (s : Server) (c : Slot) :
    Sends s (dataPlan s c).1 (dataPlan s c).2 (packetData s c) :=
  relay_sends s _ s.db _

def completePlan (s : Server) (c : Slot) : Plan × Database :=
  let p := (s.client c).decryptBuf.packet
  let (ids, db) := dbGetTransfer s.db (s.client c).id
  if p.tId ∈ ids then
    let (plan, db) := relayPlan s p db p.tId
    (plan, dbCleanupTransfer db p.tId)
  else ([], db)

theorem packetComplete_search {p : Packet} (s : Server) (c : Slot) (ids : List TransferId)
    (held : (s.client c).decryptBuf.packet = p) :
    packetComplete.search c s ids =
      if p.tId ∈ ids then
        ((dbGetClientAllAccepted s.db p.tId).1.foldlM (relay p)
          { s with db := (dbGetClientAllAccepted s.db p.tId).2 }).bind fun t =>
            .ok { t with db := dbCleanupTransfer t.db p.tId }
      else .ok s := by
  induction ids with
  | nil => rfl
  | cons tId rest ih =>
    simp only [packetComplete.search, held]
    by_cases here : tId = p.tId
    · subst here
      rw [if_pos rfl, if_pos (List.mem_cons_self ..)]
      rfl
    · rw [if_neg here, ih]
      simp [Ne.symm here]

theorem packetComplete_sends (s : Server) (c : Slot) :
    Sends s (completePlan s c).1 (completePlan s c).2 (packetComplete s c) := by
  show Sends s _ _ (packetComplete.search c { s with db := (dbGetTransfer s.db (s.client c).id).2 }
    (dbGetTransfer s.db (s.client c).id).1)
  have searched := packetComplete_search (p := (s.client c).decryptBuf.packet)
    { s with db := (dbGetTransfer s.db (s.client c).id).2 } c
    (dbGetTransfer s.db (s.client c).id).1 rfl
  rw [searched]
  by_cases member : (s.client c).decryptBuf.packet.tId ∈ (dbGetTransfer s.db (s.client c).id).1
  · simp only [completePlan, if_pos member]
    exact (relay_sends s _ _ _).thenDb fun t same left => by rw [left]
  · simp only [completePlan, if_neg member]
    exact .done s _

/-! `packet_cancel` and `cancel_transaction` -/

/-- Tell the recipients of `tId` that `c` cancels it, then delete it. -/
def cancelTransferPlan (s : Server) (c : Slot) (db : Database) (tId : TransferId) :
    Plan × Database :=
  let (ids, db) := dbGetClientAll db tId
  (toConnected s id (fun _ => transferState (s.client c).id tId .transferCancel) ids,
    dbCleanupTransfer db tId)

/-- Tell the creators of `infos` that `c` leaves their transfers. -/
def leavePlan (s : Server) (c : Slot) (infos : List TransferInfo) : Plan :=
  toConnected s TransferInfo.creator
    (fun info => transferState (s.client c).id info.tId .transferCancel) infos

theorem cancelTransfer_sends (s : Server) (c : Slot) (tId : TransferId) :
    Sends s (cancelTransferPlan s c s.db tId).1 (cancelTransferPlan s c s.db tId).2
      (cancelTransfer s c tId) := by
  have told : Sends s (cancelTransferPlan s c s.db tId).1 (dbGetClientAll s.db tId).2
      ((dbGetClientAll s.db tId).1.foldlM (cancelRecipient (s.client c).id tId)
        { s with db := (dbGetClientAll s.db tId).2 }) :=
    .setDb (toConnected_sends id _ (fun _ _ => rfl) { s with db := (dbGetClientAll s.db tId).2 } _)
  exact told.thenDb fun t same left => by rw [left]; rfl

theorem cancelCreators_sends (s : Server) (c : Slot) (infos : List TransferInfo) :
    Sends s (leavePlan s c infos) s.db (infos.foldlM (cancelCreator (s.client c).id) s) :=
  toConnected_sends TransferInfo.creator _ (fun _ _ => rfl) s infos

theorem cancelAsCreator_search (s : Server) (c : Slot) (target : TransferId)
    (ids : List TransferId) :
    cancelAsCreator.search c target s ids =
      if target ∈ ids then (cancelTransfer s c target).map (true, ·) else .ok (false, s) := by
  induction ids with
  | nil => rfl
  | cons tId rest ih =>
    simp only [cancelAsCreator.search]
    by_cases here : tId = target
    · subst here
      rw [if_pos rfl, if_pos (List.mem_cons_self ..)]
      rfl
    · rw [if_neg here, ih]
      simp [Ne.symm here]

theorem cancelAsRecipient_search (s : Server) (c : Slot) (target : TransferId)
    (infos : List TransferInfo) :
    cancelAsRecipient.search c target s infos =
      match infos.find? (·.tId = target) with
      | none => .ok (false, s)
      | some info => ((cancelCreator (s.client c).id s info).bind fun t =>
          .ok { t with db := dbClientDelete t.db (t.client c).id }).map (true, ·) := by
  induction infos with
  | nil => rfl
  | cons info rest ih =>
    simp only [cancelAsRecipient.search]
    by_cases here : info.tId = target
    · rw [if_pos here, List.find?_cons_of_pos (by simpa using here)]
      dsimp only
      cases cancelCreator (s.client c).id s info <;> rfl
    · rw [if_neg here, ih, List.find?_cons_of_neg (by simpa using here)]

/-- What `packet_cancel` does between `BEGIN` and `COMMIT`. -/
def cancelBody (s : Server) (c : Slot) (db : Database) : Plan × Database :=
  let target := (s.client c).decryptBuf.packet.tId
  let (ids, db) := dbGetTransfer db (s.client c).id
  if target ∈ ids then cancelTransferPlan s c db target
  else
    let (infos, db) := dbGetCreator db (s.client c).id
    match infos.find? (·.tId = target) with
    | none => ([], db)
    | some info => (leavePlan s c [info], dbClientDelete db (s.client c).id)

/-- What `cancel_transaction` does between `BEGIN` and `COMMIT`. -/
def disconnectBody (s : Server) (c : Slot) (db : Database) : Plan × Database :=
  let (ids, db) := dbGetTransfer db (s.client c).id
  let (plan, db) := foldPlan (cancelTransferPlan s c) db ids
  let (infos, db) := dbGetCreator db (s.client c).id
  (plan ++ leavePlan s c infos, dbClientDelete db (s.client c).id)

/-- A body run in a transaction, or nothing when `BEGIN` fails. -/
def inTransaction (body : Database → Plan × Database) (db : Database) : Plan × Database :=
  let (begun, db) := dbTransaction db .begin
  if begun then ((body db).1, (dbTransaction (body db).2 .commit).2) else ([], db)

theorem inTransaction_sends {body : Database → Plan × Database} {inner : Database → Run Server}
    (s : Server) (sends : ∀ db, Sends s (body db).1 (body db).2 (inner db)) :
    Sends s (inTransaction body s.db).1 (inTransaction body s.db).2
      (if (dbTransaction s.db .begin).1 then
        (inner (dbTransaction s.db .begin).2).bind fun t =>
          .ok { t with db := (dbTransaction t.db .commit).2 }
      else .ok { s with db := (dbTransaction s.db .begin).2 }) := by
  unfold inTransaction
  by_cases begun : (dbTransaction s.db .begin).1 = true
  · simp only [begun, if_true]
    exact (sends _).thenDb fun t same left => by rw [left]
  · simp only [begun]
    exact .done s _

def cancelPlan (s : Server) (c : Slot) : Plan × Database := inTransaction (cancelBody s c) s.db

def disconnectPlan (s : Server) (c : Slot) : Plan × Database :=
  inTransaction (disconnectBody s c) s.db

theorem cancelCreator_sends (s : Server) (c : Slot) (info : TransferInfo) :
    Sends s (leavePlan s c [info]) s.db (cancelCreator (s.client c).id s info) := by
  have one := cancelCreators_sends s c [info]
  simpa using one

theorem cancelTarget_sends (s : Server) (c : Slot) :
    Sends s (cancelBody s c s.db).1 (cancelBody s c s.db).2
      (cancelTarget s c (s.client c).decryptBuf.packet.tId) := by
  have creator : cancelAsCreator s c (s.client c).decryptBuf.packet.tId =
      cancelAsCreator.search c (s.client c).decryptBuf.packet.tId
        { s with db := (dbGetTransfer s.db (s.client c).id).2 }
        (dbGetTransfer s.db (s.client c).id).1 := rfl
  rw [cancelTarget, creator, cancelAsCreator_search]
  unfold cancelBody
  by_cases member : (s.client c).decryptBuf.packet.tId ∈ (dbGetTransfer s.db (s.client c).id).1
  · simp only [if_pos member]
    have sends : Sends s _ _ _ := (cancelTransfer_sends
      { s with db := (dbGetTransfer s.db (s.client c).id).2 } c
      (s.client c).decryptBuf.packet.tId).setDb
    cases left : cancelTransfer { s with db := (dbGetTransfer s.db (s.client c).id).2 } c
        (s.client c).decryptBuf.packet.tId <;>
      rw [left] at sends <;> exact sends
  · simp only [if_neg member]
    have recipient (u : Server) : cancelAsRecipient u c (s.client c).decryptBuf.packet.tId =
        cancelAsRecipient.search c (s.client c).decryptBuf.packet.tId
          { u with db := (dbGetCreator u.db (u.client c).id).2 }
          (dbGetCreator u.db (u.client c).id).1 := rfl
    simp only [bind, Except.bind, Bool.false_eq_true, if_false]
    rw [recipient, cancelAsRecipient_search]
    simp only [Server.client]
    generalize List.find? _ _ = found
    cases found with
    | none => exact .done s _
    | some info =>
      have told : Sends s _ _ _ := (cancelCreator_sends { s with
        db := (dbGetCreator (dbGetTransfer s.db (s.client c).id).2 (s.client c).id).2 } c info).setDb
      have left : Sends s _ (dbClientDelete (dbGetCreator (dbGetTransfer s.db (s.client c).id).2
          (s.client c).id).2 (s.client c).id) ((cancelCreator (s.client c).id { s with
            db := (dbGetCreator (dbGetTransfer s.db (s.client c).id).2 (s.client c).id).2 } info).bind
          fun t => .ok { t with db := dbClientDelete t.db (t.client c).id }) :=
        told.thenDb fun t same left => by rw [left, same.id]
      simp only [Server.client] at left
      dsimp only
      generalize Except.bind _ _ = r at left ⊢
      cases r <;> exact left

theorem packetCancel_sends (s : Server) (c : Slot) :
    Sends s (cancelPlan s c).1 (cancelPlan s c).2 (packetCancel s c) :=
  inTransaction_sends s fun db => .setDb (cancelTarget_sends { s with db } c)

theorem cancelTransferPlan_same (same : SameClients s t) (c : Slot) (db : Database)
    (tId : TransferId) : cancelTransferPlan t c db tId = cancelTransferPlan s c db tId := by
  simp only [cancelTransferPlan, toConnected_same same, same.id]

theorem leavePlan_same (same : SameClients s t) (c : Slot) (infos : List TransferInfo) :
    leavePlan t c infos = leavePlan s c infos := by
  simp only [leavePlan, toConnected_same same, same.id]

theorem cancelTransactionUser_sends (s : Server) (c : Slot) :
    Sends s (leavePlan s c (dbGetCreator s.db (s.client c).id).1)
      (dbClientDelete (dbGetCreator s.db (s.client c).id).2 (s.client c).id)
      (cancelTransactionUser s c) := by
  have told : Sends s (leavePlan s c (dbGetCreator s.db (s.client c).id).1)
      (dbGetCreator s.db (s.client c).id).2 _ :=
    .setDb (cancelCreators_sends { s with db := (dbGetCreator s.db (s.client c).id).2 } c _)
  exact told.thenDb fun t same left => by rw [left, same.id]

theorem disconnectBody_sends (s : Server) (c : Slot) (db : Database) :
    Sends s (disconnectBody s c db).1 (disconnectBody s c db).2
      ((cancelTransactionCreator { s with db := (dbGetTransfer db (s.client c).id).2 } c
        (dbGetTransfer db (s.client c).id).1).bind fun t => cancelTransactionUser t c) := by
  let created := foldPlan (cancelTransferPlan s c) (dbGetTransfer db (s.client c).id).2
    (dbGetTransfer db (s.client c).id).1
  have first : Sends s created.1 created.2 (cancelTransactionCreator
      { s with db := (dbGetTransfer db (s.client c).id).2 } c (dbGetTransfer db (s.client c).id).1) :=
    .setDb (Sends.foldlM { s with db := (dbGetTransfer db (s.client c).id).2 } _
      fun t tId same => by
        have one := cancelTransfer_sends t c tId
        rwa [cancelTransferPlan_same same] at one)
  refine first.bind fun t same left => ?_
  have told := cancelTransactionUser_sends t c
  rwa [leavePlan_same same, left, same.id] at told

theorem cancelTransaction_sends (s : Server) (c : Slot) :
    Sends s (disconnectPlan s c).1 (disconnectPlan s c).2 (cancelTransaction s c) := by
  have body := inTransaction_sends s (disconnectBody_sends s c)
  simp only [Runs.bind_bind] at body
  exact body

/-- The peers of a client that goes, each told so. -/
def goodbyePlan (s : Server) (c : Slot) : Plan :=
  (List.finRange maxClients).flatMap fun i =>
    if s.peer c i then [(i, fun _ => singleUserPacket (s.client c) .serverDelUsers)] else []

theorem sendUserDisconnect_sends (s : Server) (c : Slot) :
    Sends s (goodbyePlan s c) s.db (sendUserDisconnect s c) :=
  Sends.foldlM_const s _ fun t i same => by
    have peer : t.peer c i = true ↔ (t.client i).id ≠ (t.client c).id ∧
        (t.client i).sessionId = (t.client c).sessionId ∧ (t.client i).state = .complete := by
      simp [Server.peer, and_comm]
    rw [← same.peer]
    by_cases told : t.peer c i = true
    · rw [if_pos told, if_pos (peer.mp told), ← singleUserPacket_same same]
      exact sendSingleUser_sends t i c .serverDelUsers
    · rw [if_neg told, if_neg (mt peer.mpr told)]
      exact .done t t.db

/-! `packet_reply` -/

/-- The creator `packet_reply` looks up, once the answer is recorded. -/
def replyCreator (s : Server) (c : Slot) : ClientId × Database :=
  let p := (s.client c).decryptBuf.packet
  dbGetCreatorByTid (dbClientAccept s.db (s.client c).id p.tId (p.replyAccept ≠ 0)) p.tId

def replyPlan (s : Server) (c : Slot) : Plan × Database :=
  let (creator, db) := replyCreator s c
  (if creator = 0 then [] else toConnected s id
    (fun _ _ => (s.client c).decryptBuf.packet.storeInt64 16 (s.client c).id) [creator], db)

/-- The assertion of `packet_reply` would fail. -/
def Server.creatorGone (s : Server) (c : Slot) : Prop :=
  (replyCreator s c).1 ≠ 0 ∧ clientFindById s.clients (replyCreator s c).1 = none

theorem packetReply_eq (s : Server) (c : Slot) :
    packetReply s c = if (replyCreator s c).1 = 0 then .ok { s with db := (replyCreator s c).2 }
      else match clientFindById s.clients (replyCreator s c).1 with
        | none => .error (.creator, { s with db := (replyCreator s c).2 })
        | some r => Server.send { s with db := (replyCreator s c).2 } r fun _ =>
            (s.client c).decryptBuf.packet.storeInt64 16 (s.client c).id := rfl

theorem packetReply_gone (gone : s.creatorGone c) :
    packetReply s c = .error (.creator, { s with db := (replyCreator s c).2 }) := by
  rw [packetReply_eq, if_neg gone.1, gone.2]

theorem packetReply_sendAll (present : ¬ s.creatorGone c) :
    packetReply s c = Server.sendAll { s with db := (replyPlan s c).2 } (replyPlan s c).1 := by
  rw [packetReply_eq]
  simp only [replyPlan]
  by_cases absent : (replyCreator s c).1 = 0
  · simp only [if_pos absent, Server.sendAll_nil]
  · simp only [if_neg absent, toConnected, List.flatMap_singleton, id]
    cases found : clientFindById s.clients (replyCreator s c).1 with
    | none => exact absurd ⟨absent, found⟩ present
    | some r =>
      simp only [Option.map_some, Option.toList_some, Server.sendAll_cons, Server.sendAll_nil]
      exact Server.send_eq ..

theorem packetReply_sends (present : ¬ s.creatorGone c) :
    Sends s (replyPlan s c).1 (replyPlan s c).2 (packetReply s c) := by
  rw [packetReply_sendAll present]
  exact .setDb (.sendAll { s with db := (replyPlan s c).2 } _)

/-! `packet_transfer` -/

/-- The recipients a request names from `indices` on, up to the first 0. -/
def requestIds (p : Packet) (indices : List Nat) : List ClientId :=
  (indices.map p.hdrTo).takeWhile (· ≠ 0)

/-- A request that passes the check names connected clients of the sender's session only. -/
theorem checkRecipients_true {clients : ClientList} {client : Client} {tId : TransferId}
    {p : Packet} {indices : List Nat}
    (passed : (checkRecipients clients client tId p db indices).1 = true) :
    ∀ id ∈ requestIds p indices, ∃ r, clientFindById clients id = some r ∧
      (clients.list r).sessionId = client.sessionId := by
  induction indices generalizing db with
  | nil => simp [requestIds]
  | cons i rest ih =>
    rw [checkRecipients] at passed
    by_cases zero : p.hdrTo i = 0
    · simp [requestIds, zero]
    · rw [if_neg zero] at passed
      have ids : requestIds p (i :: rest) = p.hdrTo i :: requestIds p rest := by
        simp [requestIds, zero]
      rw [ids]
      cases found : clientFindById clients (p.hdrTo i) with
      | none => simp [found] at passed
      | some r =>
        simp only [found] at passed
        split at passed
        · cases passed
        · rename_i session
          split at passed
          · cases passed
          · intro id member
            rcases List.mem_cons.mp member with here | later
            · exact ⟨r, here ▸ found, by simpa using session⟩
            · exact ih passed id later

theorem echoTransferRequest_sends {c : Slot} {req : Packet} {tId : TransferId} (s : Server)
    (indices : List Nat)
    (found : ∀ id ∈ requestIds req indices, ∃ r, clientFindById s.clients id = some r) :
    Sends s (toConnected s id
        (fun _ _ => (req.storeInt64 16 (s.client c).id).storeInt64 8 tId) (requestIds req indices))
      s.db (echoTransferRequest s c req tId indices) := by
  induction indices generalizing s with
  | nil => exact .done s s.db
  | cons i rest ih =>
    rw [echoTransferRequest]
    by_cases zero : req.hdrTo i = 0
    · rw [if_pos zero]
      simpa [requestIds, zero, toConnected] using Sends.done s s.db
    · have ids : requestIds req (i :: rest) = req.hdrTo i :: requestIds req rest := by
        simp [requestIds, zero]
      rw [ids] at found ⊢
      obtain ⟨r, here⟩ := found _ (List.mem_cons_self ..)
      rw [if_neg zero, here]
      have first : toConnected s id (fun _ _ => (req.storeInt64 16 (s.client c).id).storeInt64 8 tId)
          (req.hdrTo i :: requestIds req rest) =
        [(r, fun _ => (req.storeInt64 16 (s.client c).id).storeInt64 8 tId)] ++
          toConnected s id (fun _ _ => (req.storeInt64 16 (s.client c).id).storeInt64 8 tId)
            (requestIds req rest) := by
        simp [toConnected, here]
      rw [first]
      refine (Sends.send s r _).bind fun t same left => ?_
      have later := ih t fun id member => by
        rw [same.findById]
        exact found id (List.mem_cons_of_mem _ member)
      rwa [toConnected_same same, same.id, left] at later

/-- The answer `send_transfer_response` builds from a request. -/
def transferResponse (req : Packet) (type : PacketType) (tId : TransferId) : Packet :=
  if type = .transferValid then (Packet.packetHdr type requestSize req).storeInt64 8 tId
  else Packet.packetHdr type requestSize req

/-- What `packet_transfer` gets from `BEGIN` and from the three statements. -/
def Server.begun (s : Server) : Bool × Database := dbTransaction s.db .begin

def Server.recorded (s : Server) (c : Slot) : Bool × TransferId × Database :=
  recordTransfer s.clients (s.client c) s.begun.2 (s.client c).decryptBuf.packet

/-- The answer and the copies of a request that is granted as `tId`. -/
def grantPlan (s : Server) (c : Slot) (p : Packet) (tId : TransferId) : Plan :=
  [(c, fun _ => transferResponse p .transferValid tId)] ++
    toConnected s id (fun _ _ => (p.storeInt64 16 (s.client c).id).storeInt64 8 tId)
      (requestIds p (List.range transferClientsMax))

def refusePlan (s : Server) (c : Slot) : Plan :=
  [(c, fun _ => transferResponse (s.client c).decryptBuf.packet .transferInvalid 0)]

theorem recordTransfer_true {clients : ClientList} {client : Client} {p : Packet}
    (recorded : (recordTransfer clients client db p).1 = true) :
    ∀ id ∈ requestIds p (List.range transferClientsMax), ∃ r, clientFindById clients id = some r ∧
      (clients.list r).sessionId = client.sessionId := by
  unfold recordTransfer at recorded
  simp only at recorded
  split at recorded
  · cases recorded
  · split at recorded
    · cases recorded
    · rename_i passed
      exact checkRecipients_true (by rw [passed])

/-- `packet_transfer` once `BEGIN` and the statements have run. -/
theorem packetTransfer_eq (s : Server) (c : Slot) :
    packetTransfer s c =
      let p := (s.client c).decryptBuf.packet
      let s' := { s with db := (s.recorded c).2.2 }
      if s.begun.1 then
        if (s.recorded c).1 then
          (sendTransferResponse { s' with committed := s.committed ++ [(s.recorded c).2.1] } c p
            .transferValid (s.recorded c).2.1).bind fun t =>
              echoTransferRequest t c p (s.recorded c).2.1 (List.range transferClientsMax)
        else (sendTransferResponse s' c p .transferInvalid 0).bind fun t =>
          if (debugTransfer p).inside then .ok { t with db := (dbTransaction t.db .rollback).2 }
          else .error (.outOfBounds, { t with db := (dbTransaction t.db .rollback).2 })
      else sendTransferResponse { s with db := s.begun.2 } c p .transferInvalid 0 := by
  simp only [packetTransfer, Server.recorded, Server.begun, bind, pure, Except.pure, Server.client]
  congr 1

theorem sendTransferResponse_sends (s : Server) (c : Slot) (req : Packet) (type : PacketType)
    (tId : TransferId) :
    Sends s [(c, fun _ => transferResponse req type tId)] s.db
      (sendTransferResponse s c req type tId) :=
  .send s c _

theorem grantPlan_sends (s : Server) (c : Slot) (p : Packet) (tId : TransferId)
    (found : ∀ id ∈ requestIds p (List.range transferClientsMax),
      ∃ r, clientFindById s.clients id = some r) :
    Sends s (grantPlan s c p tId) s.db
      ((sendTransferResponse s c p .transferValid tId).bind fun t =>
        echoTransferRequest t c p tId (List.range transferClientsMax)) := by
  unfold grantPlan
  refine (sendTransferResponse_sends s c p .transferValid tId).bind fun t same left => ?_
  have echoed : Sends t _ t.db (echoTransferRequest t c p tId (List.range transferClientsMax)) :=
    echoTransferRequest_sends t _ fun id member => by rw [same.findById]; exact found id member
  rwa [toConnected_same same, same.id, left] at echoed

theorem packetTransfer_granted (begun : s.begun.1 = true) (recorded : (s.recorded c).1 = true) :
    Sends { s with committed := s.committed ++ [(s.recorded c).2.1] }
      (grantPlan s c (s.client c).decryptBuf.packet (s.recorded c).2.1) (s.recorded c).2.2
      (packetTransfer s c) := by
  rw [packetTransfer_eq]
  simp only [begun, recorded, if_true]
  generalize (s.recorded c).2.2 = db
  exact .setDb (grantPlan_sends
    { s with db, committed := s.committed ++ [(s.recorded c).2.1] } c _ _ fun id member => by
      obtain ⟨r, here, -⟩ := recordTransfer_true recorded id member
      exact ⟨r, here⟩)

theorem packetTransfer_refused (begun : s.begun.1 = true) (refused : (s.recorded c).1 = false) :
    ∃ r, Sends s (refusePlan s c) (dbTransaction (s.recorded c).2.2 .rollback).2 r ∧
      packetTransfer s c = r.bind fun t =>
        if (debugTransfer (s.client c).decryptBuf.packet).inside then .ok t
        else .error (.outOfBounds, t) := by
  have told : Sends s (refusePlan s c) _ _ := .setDb (sendTransferResponse_sends
    { s with db := (s.recorded c).2.2 } c (s.client c).decryptBuf.packet .transferInvalid 0)
  have rolled : Sends s (refusePlan s c) (dbTransaction (s.recorded c).2.2 .rollback).2
      (Except.bind _ fun t : Server => .ok { t with db := (dbTransaction t.db .rollback).2 }) :=
    told.thenDb fun t same left => by rw [left]
  refine ⟨_, rolled, ?_⟩
  simp only [packetTransfer_eq, begun, refused, if_true, Bool.false_eq_true, if_false,
    Runs.bind_bind]
  simp only [Except.bind]

theorem packetTransfer_busy (busy : s.begun.1 = false) :
    Sends s (refusePlan s c) s.begun.2 (packetTransfer s c) := by
  rw [packetTransfer_eq]
  simp only [busy, Bool.false_eq_true, if_false]
  exact .setDb (sendTransferResponse_sends { s with db := s.begun.2 } c _ _ _)

/-! `packet_intro` -/

/-- The session an introduction opens or joins, 0 when refused. -/
def Server.introduced (s : Server) (c : Slot) : SessionId × Database :=
  let p := terminateIntro (s.client c).decryptBuf.packet
  if p.introSession = 0 then dbGetSession s.db (cString p.introId)
  else dbCreateSession s.db (cString p.introId)

/-- `packet_intro` wrote the terminators into the buffer. -/
def Server.terminated (s : Server) (c : Slot) : Server :=
  s.modify c fun client => { client with
    decryptBuf := { client.decryptBuf with data := terminateIntro (s.client c).decryptBuf.packet } }

/-- `c` is registered in `session`. -/
def Server.completed (s : Server) (c : Slot) (session : SessionId) (name : List UInt8) : Server :=
  s.modify c fun client => { client with state := .complete, sessionId := session, name }

theorem packetIntro_eq (s : Server) (c : Slot) :
    packetIntro s c =
      if (s.client c).state = .complete ∨ (s.client c).decryptBuf.packet.introSession > 1 then
        serverResponse s c .serverDeny
      else
        let s' := { s.terminated c with db := (s.introduced c).2 }
        if (s.introduced c).1 = 0 then serverResponse s' c .serverDeny
        else (serverResponse s' c .serverOk).bind fun t =>
          sendSessionUsers (t.completed c (s.introduced c).1
            (terminateIntro (s.client c).decryptBuf.packet).introName) c := by
  simp only [packetIntro, Server.introduced, Server.terminated, Server.completed, Server.modify,
    bind]
  congr 1

/-! `close_client` -/

def leavingPlan (s : Server) (c : Slot) : Plan × Database :=
  if (s.client c).state = .complete then
    ((disconnectPlan s c).1 ++ goodbyePlan s c, (disconnectPlan s c).2)
  else ([], s.db)

theorem goodbyePlan_same (same : SameClients s t) (c : Slot) :
    goodbyePlan t c = goodbyePlan s c := by
  simp only [goodbyePlan, same.peer, singleUserPacket_same same]

theorem leaveSession_sends (s : Server) (c : Slot) :
    Sends s (leavingPlan s c).1 (leavingPlan s c).2 (leaveSession s c) := by
  unfold leavingPlan leaveSession
  by_cases complete : (s.client c).state = .complete
  · simp only [if_pos complete]
    refine (cancelTransaction_sends s c).bind fun t same left => ?_
    have told := sendUserDisconnect_sends t c
    rwa [goodbyePlan_same same, left] at told
  · simp only [if_neg complete]
    exact .done s s.db

/-- The slot is free and the descriptor closed. -/
def Server.closed (s : Server) (fd : Int) : Server :=
  { s with clients := clientClose s.clients fd, openFds := s.openFds.erase fd }

theorem closeClient_eq (s : Server) (fd : Int) (deleted : Bool) :
    closeClient s fd deleted =
      if deleted = true ∧ fd ∈ s.epoll then
        let s' := { s with epoll := s.epoll.erase fd }
        match clientFind s.clients fd with
        | none => .ok s'
        | some c => (leaveSession s' c).bind fun t => .ok (t.closed fd)
      else .ok s := by
  by_cases known : deleted = true ∧ fd ∈ s.epoll
  · simp only [closeClient, epollDel, if_pos known]
    rfl
  · simp only [closeClient, epollDel, if_neg known]

end Quickshare
