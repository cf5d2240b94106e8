import Quickshare.Server.Identity
import Quickshare.Server.Sessions
import Quickshare.Server.Authorisation
import Quickshare.Server.Granting
import Quickshare.Server.WriteLoop

/-! Session isolation: what a client does reaches the members of its session
only, as long as nobody acts before its introduction, names the transfer of
another session or gets an id that is still in use. -/

namespace Quickshare

open Runs

/-- The packet was enqueued for `c` itself or for a member of its session. -/
def Sent.within (entry : Sent) (c : Slot) : Prop :=
  entry.recipient = c ∨ (entry.sessions c).1 = .complete ∧
    (entry.sessions entry.recipient).1 = .complete ∧
    (entry.sessions c).2 = (entry.sessions entry.recipient).2 ∧ (entry.sessions c).2 ≠ 0

/-- The client whose packet or disconnect an event handles. -/
def Server.actor (s : Server) : Event → Option Slot
  | .recv fd _ | .write fd _ | .close fd _ => clientFind s.clients fd
  | _ => none

/-- What the event enqueues stays in the session of its client. -/
def isolated (s : Server) (e : Event) : Prop :=
  ∀ c, s.actor e = some c →
    ∀ entry ∈ (Run.state (step s e)).sent.drop s.sent.length, entry.within c

/-- Both clients are in one session. -/
structure Server.Together (s : Server) (i j : Slot) : Prop where
  left : (s.client i).state = .complete
  right : (s.client j).state = .complete
  same : (s.client i).sessionId = (s.client j).sessionId
  opened : (s.client i).sessionId ≠ 0

namespace Server.Together

variable {s t : Server} {i j : Slot}

theorem symm (together : s.Together i j) : s.Together j i :=
  ⟨together.right, together.left, together.same.symm, together.same ▸ together.opened⟩

theorem of_clients (together : s.Together i j) (same : SameClients s t) : t.Together i j where
  left := (same.state i).trans together.left
  right := (same.state j).trans together.right
  same := by rw [same.sessionId, same.sessionId, together.same]
  opened := by
    rw [same.sessionId]
    exact together.opened

end Server.Together

/-! What a computation adds to the log -/

/-- The log has grown by packets that stay in the session of `c`. -/
def GrowsWithin (c : Slot) (sent : List Sent) (t : Server) : Prop :=
  ∃ added, t.sent = sent ++ added ∧ ∀ entry ∈ added, entry.within c

/-- A computation that sends within the session of `c`, also where it fails. -/
def SendsWithin (c : Slot) (sent : List Sent) (r : Run Server) : Prop :=
  Ends (GrowsWithin c sent) (fun failed => GrowsWithin c sent failed.2) r

section Log

variable {s t : Server} {c : Slot} {sent : List Sent} {plan : Plan} {db : Database}
variable {r : Run Server}

theorem GrowsWithin.none (same : t.sent = sent) : GrowsWithin c sent t :=
  ⟨[], by rw [same, List.append_nil], fun entry member => absurd member List.not_mem_nil⟩

theorem GrowsWithin.trans {u : Server} (first : GrowsWithin c sent t)
    (second : GrowsWithin c t.sent u) : GrowsWithin c sent u := by
  obtain ⟨added, grown, near⟩ := first
  obtain ⟨more, later, near'⟩ := second
  refine ⟨added ++ more, by rw [later, grown, List.append_assoc], fun entry member => ?_⟩
  rcases List.mem_append.mp member with here | there
  · exact near entry here
  · exact near' entry there

theorem GrowsWithin.after (first : GrowsWithin c sent t) (later : SendsWithin c t.sent r) :
    SendsWithin c sent r :=
  Ends.mono later (fun _ _ grows => first.trans grows) fun _ grows => first.trans grows

theorem SendsWithin.bind {next : Server → Run Server} (first : SendsWithin c sent r)
    (later : ∀ t, r = .ok t → SendsWithin c t.sent (next t)) : SendsWithin c sent (r.bind next) := by
  cases r with
  | ok t => exact GrowsWithin.after first (later t rfl)
  | error failed => exact first

/-- Every receiver of the plan is `c` or in its session. -/
def Plan.Near (s : Server) (c : Slot) (plan : Plan) : Prop :=
  ∀ i ∈ plan.map Prod.fst, i = c ∨ s.Together c i

theorem Plan.Near.nil : Plan.Near s c [] := fun _ member => absurd member List.not_mem_nil

theorem Plan.Near.append {first second : Plan} (left : Plan.Near s c first)
    (right : Plan.Near s c second) : Plan.Near s c (first ++ second) := by
  intro i member
  rw [List.map_append] at member
  rcases List.mem_append.mp member with here | there
  · exact left i here
  · exact right i there

theorem Plan.Near.self (f : Packet → Packet) : Plan.Near s c [(c, f)] := by
  intro i member
  exact .inl (List.mem_singleton.mp member)

theorem Plan.Near.same (near : Plan.Near s c plan) (same : SameClients s t) :
    Plan.Near t c plan := by
  intro i member
  rcases near i member with here | together
  · exact .inl here
  · exact .inr (together.of_clients same)

theorem Plan.Near.connected {Item : Type} {key : Item → ClientId}
    {packet : Item → Packet → Packet} {items : List Item}
    (near : ∀ x ∈ items, ∀ i, clientFindById s.clients (key x) = some i → i = c ∨ s.Together c i) :
    Plan.Near s c (toConnected s key packet items) := by
  intro i member
  obtain ⟨x, listed, found⟩ := mem_toConnected.mp member
  exact near x listed i found

/-- A plan for members of the session is carried out within it. -/
theorem Sends.within (sends : Sends s plan db r) (near : Plan.Near s c plan) :
    SendsWithin c s.sent r := by
  obtain ⟨receivers, grown, front⟩ := sends.sent
  have grows : GrowsWithin c s.sent (Run.state r) := by
    refine ⟨_, grown, fun entry member => ?_⟩
    obtain ⟨i, listed, rfl⟩ := List.mem_map.mp member
    rcases near i (front.subset listed) with here | together
    · exact .inl here
    · exact .inr ⟨together.left, together.right, together.same, together.opened⟩
  cases r with
  | ok t => exact grows
  | error failed => exact grows

end Log

/-! Rows -/

/-- The creator of a transfer and each client with a row for it are `near`. -/
def Tables.Within (near : ClientId → ClientId → Prop) (tables : Tables) : Prop :=
  ∀ transfer ∈ tables.transfers, ∀ row ∈ tables.transferClients,
    transfer.transferId = row.transferId → near transfer.creatorId row.clientId

theorem Tables.Within.fades {near : ClientId → ClientId → Prop} {before after : Tables}
    (within : before.Within near) (fades : before.Fades after) : after.Within near := by
  intro transfer created row listed same
  obtain ⟨old, held, transferId, clientId⟩ := fades.clients row listed
  have kept := within transfer (fades.transfers transfer created) old held
    (same.trans transferId.symm)
  rwa [clientId] at kept

theorem Tables.Within.weaken {near other : ClientId → ClientId → Prop} {tables : Tables}
    (within : tables.Within near) (weaker : ∀ a b, near a b → other a b) : tables.Within other :=
  fun transfer created row listed same => weaker _ _ (within transfer created row listed same)

/-- Two connected clients with these ids, if they are two, are in one session. -/
def Server.Near (s : Server) (a b : ClientId) : Prop :=
  ∀ i j, s.Live i → s.Live j → (s.client i).id = a → (s.client j).id = b → i = j ∨ s.Together i j

/-- Ids are distinct, a session is what registered clients have, and transfers
stay within one. -/
structure Server.Segregated (s : Server) : Prop where
  distinct : s.DistinctIds
  registered : ∀ i, s.Live i → ((s.client i).state = .complete ↔ (s.client i).sessionId ≠ 0)
  rows : s.db.tables.Within s.Near

section Handlers

variable {s t : Server} {c i : Slot} {db : Database} {tId : TransferId}

theorem Server.Near.symm {a b : ClientId} (near : s.Near a b) : s.Near b a := by
  intro i j first second left right
  rcases near j i second first right left with same | together
  · exact .inl same.symm
  · exact .inr together.symm

/-- Whoever the client finds by a near id is itself or in its session. -/
theorem Server.Near.found {a : ClientId} (near : s.Near (s.client c).id a) (live : s.Live c)
    (found : clientFindById s.clients a = some i) : i = c ∨ s.Together c i := by
  obtain ⟨there, id⟩ := clientFindById_some found
  rcases near c i live there rfl id with same | together
  · exact .inl same.symm
  · exact .inr together

theorem Server.peer_together (live : (s.client c).state = .complete) (opened : (s.client c).sessionId ≠ 0)
    (peer : s.peer c i = true) : s.Together c i := by
  obtain ⟨-, complete, same⟩ : (s.client i).id ≠ (s.client c).id ∧ (s.client i).state = .complete ∧
      (s.client i).sessionId = (s.client c).sessionId := by
    simpa [Server.peer] using peer
  exact ⟨live, complete, same.symm, opened⟩

/-- The clients of a transfer that `c` created. -/
theorem Tables.Within.client {id : ClientId} (within : db.tables.Within s.Near)
    (created : ⟨tId, (s.client c).id⟩ ∈ db.tables.transfers)
    (listed : ∃ row ∈ db.tables.transferClients, row.transferId = tId ∧ row.clientId = id)
    (live : s.Live c) (found : clientFindById s.clients id = some i) : i = c ∨ s.Together c i := by
  obtain ⟨row, held, rfl, rfl⟩ := listed
  have near : s.Near (s.client c).id row.clientId := within _ created row held rfl
  exact near.found live found

/-- The creators of transfers that `c` has a row for. -/
theorem Tables.Within.creator {info : TransferInfo} (within : db.tables.Within s.Near)
    (joined : info ∈ (dbGetCreator db (s.client c).id).1) (live : s.Live c)
    (found : clientFindById s.clients info.creator = some i) : i = c ∨ s.Together c i := by
  obtain ⟨⟨row, held, transfer, client⟩, created⟩ := mem_dbGetCreator joined
  have near : s.Near info.creator row.clientId := within _ created row held transfer.symm
  rw [client] at near
  exact near.symm.found live found

/-- Rows may have faded since the transfer was read. -/
theorem cancelTransferPlan_near {before : Database} (within : before.tables.Within s.Near)
    (live : s.Live c) (created : ⟨tId, (s.client c).id⟩ ∈ before.tables.transfers)
    (fades : before.Fades db) : Plan.Near s c (cancelTransferPlan s c db tId).1 := by
  refine .connected fun id member i found => within.client created ?_ live found
  obtain ⟨row, held, transfer, client⟩ := mem_dbGetClientAll member
  obtain ⟨old, kept, transfer', client'⟩ := fades.rows.clients row held
  exact ⟨old, kept, transfer'.trans transfer, client'.trans client⟩

theorem leavePlan_near (within : db.tables.Within s.Near) (live : s.Live c) {infos : List TransferInfo}
    (joined : ∀ info ∈ infos, info ∈ (dbGetCreator db (s.client c).id).1) :
    Plan.Near s c (leavePlan s c infos) :=
  .connected fun info member _ found => within.creator (joined info member) live found

theorem completePlan_near (within : s.db.tables.Within s.Near) (live : s.Live c) :
    Plan.Near s c (completePlan s c).1 := by
  simp only [completePlan]
  split
  · rename_i created
    have row := mem_dbGetTransfer created
    refine .connected fun id member i found => within.client row ?_ live found
    obtain ⟨listed, held, transfer, -, client⟩ := mem_dbGetClientAllAccepted member
    rw [dbGetTransfer_snd] at held
    exact ⟨listed, held, transfer, client⟩
  · exact .nil

theorem inTransaction_near {body : Database → Plan × Database} (within : db.tables.Within s.Near)
    (near : ∀ db : Database, db.tables.Within s.Near → Plan.Near s c (body db).1) :
    Plan.Near s c (inTransaction body db).1 := by
  simp only [inTransaction]
  split
  · exact near _ (within.fades (Database.Fades.begin db).rows)
  · exact .nil

theorem cancelPlan_near (within : s.db.tables.Within s.Near) (live : s.Live c) :
    Plan.Near s c (cancelPlan s c).1 := by
  refine inTransaction_near within fun db within => ?_
  have read : (dbGetTransfer db (s.client c).id).2.tables = db.tables := by rw [dbGetTransfer_snd]; rfl
  have within' : (dbGetTransfer db (s.client c).id).2.tables.Within s.Near := by rwa [read]
  simp only [cancelBody]
  split
  · rename_i created
    have row := mem_dbGetTransfer created
    exact cancelTransferPlan_near within live row (fades_rule.of_ticked (dbGetTransfer_snd ..))
  · split
    · exact .nil
    · rename_i info found
      refine leavePlan_near within' live fun other member => ?_
      rw [List.mem_singleton.mp member]
      exact List.mem_of_find?_eq_some found

theorem cancels_near {before : Database} (within : before.tables.Within s.Near) (live : s.Live c)
    (ids : List TransferId) (created : ∀ tId ∈ ids, ⟨tId, (s.client c).id⟩ ∈ before.tables.transfers)
    (fades : before.Fades db) : Plan.Near s c (foldPlan (cancelTransferPlan s c) db ids).1 := by
  induction ids generalizing db with
  | nil => exact .nil
  | cons tId rest ih =>
    have first : Plan.Near s c (cancelTransferPlan s c db tId).1 :=
      cancelTransferPlan_near within live (created tId (List.mem_cons_self ..)) fades
    have later := fades.trans (fades_rule.cancelTransferPlan s c db tId)
    exact first.append (ih (fun id member => created id (List.mem_cons_of_mem _ member)) later)

theorem disconnectPlan_near (within : s.db.tables.Within s.Near) (live : s.Live c) :
    Plan.Near s c (disconnectPlan s c).1 := by
  refine inTransaction_near within fun db within => ?_
  have read : db.Fades (dbGetTransfer db (s.client c).id).2 :=
    fades_rule.of_ticked (dbGetTransfer_snd ..)
  have cancelled := read.trans (fades_rule.foldPlan (fades_rule.cancelTransferPlan s c) _
    (dbGetTransfer db (s.client c).id).1)
  simp only [disconnectBody]
  refine Plan.Near.append ?_ ?_
  · exact cancels_near within live _ (fun tId member => mem_dbGetTransfer member) read
  · exact leavePlan_near (within.fades cancelled.rows) live fun info member => member

theorem goodbyePlan_near (complete : (s.client c).state = .complete)
    (opened : (s.client c).sessionId ≠ 0) : Plan.Near s c (goodbyePlan s c) := by
  intro i member
  simp only [goodbyePlan, List.map_flatMap, List.mem_flatMap] at member
  obtain ⟨j, -, listed⟩ := member
  split at listed
  · rename_i peer
    have same : i = j := by simpa using listed
    exact .inr (same ▸ s.peer_together complete opened peer)
  · cases listed

/-- Leaving tells the session only. -/
theorem leaveSession_within (segregated : s.Segregated) (live : s.Live c) :
    SendsWithin c s.sent (leaveSession s c) := by
  refine (leaveSession_sends s c).within ?_
  unfold leavingPlan
  split
  · rename_i complete
    have opened := (segregated.registered c live).mp complete
    exact (disconnectPlan_near segregated.rows live).append (goodbyePlan_near complete opened)
  · exact .nil

theorem introPlan_near {peers : List Slot} (near : ∀ i ∈ peers, s.Together c i) :
    Plan.Near s c (introPlan s c peers) := by
  intro i member
  unfold introPlan at member
  split at member
  · cases member
  · rcases List.mem_cons.mp member with here | there
    · exact .inl here
    · obtain ⟨entry, listed, rfl⟩ := List.mem_map.mp there
      obtain ⟨j, peer, rfl⟩ := List.mem_map.mp listed
      exact .inr (near j peer)

/-- Every way a packet may lead out of the session of `c` is closed: it is registered
or asks nobody else, no row is left from an older transfer with the id it gets,
and the transfer it answers or sends data for is one of its session. -/
structure Server.Insider (s : Server) (c : Slot) : Prop where
  request : s.granted c → (s.client c).state = .complete ∨
    ∀ id ∈ s.requested c, id = (s.client c).id
  leftover : s.granted c → ∀ row ∈ s.db.tables.transferClients,
    row.transferId = (s.recorded c).2.1 → s.Near (s.client c).id row.clientId
  reply : (s.client c).decryptBuf.packet.type? = some .transferReply →
    ∀ row ∈ s.db.tables.transfers, row.transferId = (s.client c).decryptBuf.packet.tId →
      s.Near (s.client c).id row.creatorId
  data : (s.client c).decryptBuf.packet.type? = some .transferData →
    ∀ row ∈ s.db.tables.transferClients, row.transferId = (s.client c).decryptBuf.packet.tId →
      row.accepted = 1 → s.Near (s.client c).id row.clientId

/-- The clients a request of `c` names are in its session. -/
theorem requested_near (segregated : s.Segregated) (live : s.Live c) (granted : s.granted c)
    (insider : s.Insider c) {id : ClientId} (named : id ∈ s.requested c) :
    s.Near (s.client c).id id := by
  obtain ⟨r, found, session⟩ := recordTransfer_true granted.2.2 id named
  obtain ⟨there, same⟩ := clientFindById_some found
  intro i j first second left right
  obtain rfl : i = c := segregated.distinct i c first live left
  obtain rfl : j = r := segregated.distinct j r second there (right.trans same.symm)
  rcases insider.request granted with complete | own
  · have opened := (segregated.registered i live).mp complete
    have joined : (s.client j).sessionId = (s.client i).sessionId := session
    have registered := (segregated.registered j there).mpr (joined ▸ opened)
    exact .inr ⟨complete, registered, joined.symm, opened⟩
  · exact .inl (segregated.distinct i j live there ((own id named).symm.trans right.symm))

theorem grantPlan_near (segregated : s.Segregated) (live : s.Live c) (granted : s.granted c)
    (insider : s.Insider c) :
    Plan.Near s c (grantPlan s c (s.client c).decryptBuf.packet (s.recorded c).2.1) := by
  refine Plan.Near.append (.self _) (.connected fun id named i found => ?_)
  exact (requested_near segregated live granted insider named).found live found

theorem packetTransfer_within (segregated : s.Segregated) (live : s.Live c)
    (insider : s.Insider c)
    (request : (s.client c).decryptBuf.packet.type? = some .transferRequest) :
    SendsWithin c s.sent (packetTransfer s c) := by
  by_cases begun : s.begun.1 = true
  · by_cases recorded : (s.recorded c).1 = true
    · have near := grantPlan_near segregated live ⟨request, begun, recorded⟩ insider
      exact (packetTransfer_granted begun recorded).within (near.same (.of_clients rfl))
    · obtain ⟨r, sends, same⟩ := packetTransfer_refused begun (by simpa using recorded)
      rw [same]
      refine (sends.within (.self _)).bind fun t _ => ?_
      generalize (debugTransfer (s.client c).decryptBuf.packet).inside = inside
      cases inside <;> exact GrowsWithin.none rfl
  · exact (packetTransfer_busy (by simpa using begun)).within (.self _)

theorem packetReply_within (live : s.Live c) (insider : s.Insider c)
    (reply : (s.client c).decryptBuf.packet.type? = some .transferReply) :
    SendsWithin c s.sent (packetReply s c) := by
  by_cases gone : s.creatorGone c
  · rw [packetReply_gone gone]
    exact GrowsWithin.none rfl
  · refine (packetReply_sends gone).within ?_
    simp only [replyPlan]
    split
    · exact .nil
    · rename_i known
      have answered := dbGetCreatorByTid_row known
      have created := (Database.Fades.clientAccept s.db _ _ _).rows.transfers _ answered
      refine .connected fun id named i found => ?_
      rw [List.mem_singleton.mp named] at found
      exact (insider.reply reply _ created rfl).found live found

theorem packetData_within (live : s.Live c) (insider : s.Insider c)
    (data : (s.client c).decryptBuf.packet.type? = some .transferData) :
    SendsWithin c s.sent (packetData s c) := by
  refine (packetData_sends s c).within (.connected fun id member i found => ?_)
  obtain ⟨row, held, transfer, accepted, rfl⟩ := mem_dbGetClientAllAccepted member
  exact (insider.data data row held transfer accepted).found live found

theorem packetIntro_within (s : Server) (c : Slot) : SendsWithin c s.sent (packetIntro s c) := by
  rw [packetIntro_eq]
  split
  · exact (serverResponse_sends s c .serverDeny).within (.self _)
  · generalize s.introduced c = opened
    generalize (terminateIntro (s.client c).decryptBuf.packet).introName = name
    have answered (type : PacketType) : SendsWithin c s.sent
        (serverResponse { s.terminated c with db := opened.2 } c type) :=
      (serverResponse_sends { s.terminated c with db := opened.2 } c type).within (.self _)
    dsimp only
    split
    · exact answered .serverDeny
    · rename_i nonzero
      refine (answered .serverOk).bind fun t _ => ?_
      have here := t.completed_client_self c opened.1 name
      refine (sendSessionUsers_sends (t.completed c opened.1 name) c).within
        (introPlan_near fun i peer => ?_)
      refine Server.peer_together ?_ ?_ (List.of_mem_filter peer)
      · rw [here]
      · rw [here]
        exact nonzero

/-- A packet of an insider reaches its session only. -/
theorem analizePacket_within (segregated : s.Segregated) (live : s.Live c)
    (insider : s.Insider c) : SendsWithin c s.sent (analizePacket s c) := by
  unfold analizePacket
  split
  · exact packetIntro_within s c
  · exact packetTransfer_within segregated live insider ‹_›
  · exact packetReply_within live insider ‹_›
  · exact packetData_within live insider ‹_›
  · exact (packetComplete_sends s c).within (completePlan_near segregated.rows live)
  · exact (packetCancel_sends s c).within (cancelPlan_near segregated.rows live)
  · exact GrowsWithin.none rfl

end Handlers

/-! Steps -/

section Step

variable {s t : Server} {c i j : Slot} {fd : Int}

/-- Clients may leave or register, and registered clients stay in their session. -/
structure Server.Stays (s t : Server) : Prop where
  live : ∀ i, t.Live i → s.Live i
  id : ∀ i, (t.client i).id = (s.client i).id
  session : ∀ i, t.Live i →
    ((t.client i).state = .complete ↔ (s.client i).state = .complete) ∧
      (t.client i).sessionId = (s.client i).sessionId ∨
    (s.client i).state ≠ .complete ∧ (t.client i).state = .complete ∧ (t.client i).sessionId ≠ 0

namespace Server.Stays

theorem of_same (same : SameClients s t) : s.Stays t where
  live := fun i => (same.live i).mp
  id := same.id
  session := fun i _ => .inl ⟨by rw [same.state], same.sessionId i⟩

theorem modify (s : Server) (i : Slot) (f : Client → Client)
    (live : (f (s.client i)).state ≠ .empty → s.Live i)
    (id : (f (s.client i)).id = (s.client i).id)
    (complete : (f (s.client i)).state = .complete ↔ (s.client i).state = .complete)
    (session : (f (s.client i)).sessionId = (s.client i).sessionId) : s.Stays (s.modify i f) := by
  refine ⟨fun j => ?_, fun j => ?_, fun j _ => .inl ?_⟩ <;> by_cases here : j = i
  · rw [Server.Live, here, client_modify_self]
    exact live
  · rw [Server.Live, client_modify_of_ne _ _ here]
    exact fun held => held
  · rw [here, client_modify_self, id]
  · rw [client_modify_of_ne _ _ here]
  · rw [here, client_modify_self]
    exact ⟨complete, session⟩
  · rw [client_modify_of_ne _ _ here]
    exact ⟨Iff.rfl, rfl⟩

theorem closed (s : Server) (fd : Int) : s.Stays (s.closed fd) where
  live := s.closed_live fd
  id := s.closed_id fd
  session := fun i live => by
    by_cases found : clientFind s.clients fd = some i
    · simp [Server.Live, Server.client, Server.closed, clientClose_self found, Client.freed] at live
    · have kept : (s.closed fd).client i = s.client i := clientClose_of_ne found
      rw [kept]
      exact .inl ⟨Iff.rfl, rfl⟩

theorem together (stays : s.Stays t) (first : t.Live i) (second : t.Live j)
    (together : s.Together i j) : t.Together i j := by
  obtain ⟨left, right, same, opened⟩ := together
  rcases stays.session i first with ⟨complete, session⟩ | ⟨before, -⟩
  · rcases stays.session j second with ⟨complete', session'⟩ | ⟨before, -⟩
    · exact ⟨complete.mpr left, complete'.mpr right, by rw [session, session', same],
        by rwa [session]⟩
    · exact absurd right before
  · exact absurd left before

theorem near {a b : ClientId} (stays : s.Stays t) (near : s.Near a b) : t.Near a b := by
  intro i j first second left right
  rw [stays.id] at left right
  rcases near i j (stays.live i first) (stays.live j second) left right with same | together
  · exact .inl same
  · exact .inr (stays.together first second together)

end Server.Stays

theorem Server.Segregated.next (segregated : s.Segregated) (stays : s.Stays t)
    (rows : t.db.tables.Within s.Near) : t.Segregated where
  distinct := segregated.distinct.of_live stays.live stays.id
  registered := fun i live => by
    rcases stays.session i live with ⟨complete, session⟩ | ⟨-, complete, opened⟩
    · rw [complete, session]
      exact segregated.registered i (stays.live i live)
    · exact iff_of_true complete opened
  rows := rows.weaken fun _ _ => stays.near

theorem analizePacket_stays (live : s.Live c) :
    Ends s.Stays (fun _ => True) (analizePacket s c) := by
  have touched := analizePacket_touches s c
  by_cases intro : (s.client c).decryptBuf.packet.type? = some .clientIntro
  · by_cases complete : (s.client c).state = .complete
    · have denied : analizePacket s c = serverResponse s c .serverDeny := by
        simp only [analizePacket, intro]
        rw [packetIntro_eq, if_pos (.inl complete)]
      rw [denied]
      exact (serverResponse_sends s c .serverDeny).ends.mono (fun t _ same => .of_same same)
        fun _ _ => trivial
    · refine touched.mono (fun t _ handled => ?_) fun _ _ => trivial
      refine ⟨handled.live live, handled.id, fun i _ => ?_⟩
      rcases handled.state i with ⟨state, session⟩ | ⟨rfl, registered⟩
      · exact .inl ⟨by rw [state], session⟩
      · exact .inr ⟨complete, registered⟩
  · refine (touched.and (analizePacket_keepsSessions intro)).mono (fun t _ both => ?_)
      fun _ _ => trivial
    obtain ⟨handled, kept⟩ := both
    refine ⟨handled.live live, handled.id, fun i _ => .inl ?_⟩
    rcases handled.state i with ⟨state, session⟩ | ⟨rfl, complete, -⟩
    · exact ⟨by rw [state], session⟩
    · obtain ⟨before, session⟩ := kept.complete i complete
      exact ⟨iff_of_true complete before, session⟩

/-- The rows of a request of an insider are within its session. -/
theorem Server.Segregated.granted {next : Database} (segregated : s.Segregated)
    (live : s.Live c) (insider : s.Insider c) (granted : s.granted c)
    (grants : s.db.Grants (s.client c).id (s.requested c) (s.recorded c).2.1 next) :
    next.tables.Within s.Near := by
  intro transfer created row listed same
  rw [grants.transfers] at created
  rw [grants.clients] at listed
  rcases List.mem_append.mp created with old | new
  · rcases List.mem_append.mp listed with held | added
    · exact segregated.rows transfer old row held same
    · obtain ⟨id, -, rfl⟩ := List.mem_map.mp added
      exact absurd same (grants.unused transfer old)
  · obtain rfl := List.mem_singleton.mp new
    rcases List.mem_append.mp listed with held | added
    · exact insider.leftover granted row held same.symm
    · obtain ⟨id, named, rfl⟩ := List.mem_map.mp added
      exact requested_near segregated live granted insider named

theorem Server.Segregated.analizePacket (segregated : s.Segregated) (live : s.Live c)
    (insider : s.Insider c) :
    Ends Server.Segregated (fun _ => True) (Quickshare.analizePacket s c) := by
  refine ((analizePacket_stays live).and (analizePacket_rows s c)).mono (fun t _ both => ?_)
    fun _ _ => trivial
  obtain ⟨stays, rows⟩ := both
  refine segregated.next stays ?_
  by_cases granted : s.granted c
  · exact segregated.granted live insider granted (rows.granted granted)
  · exact segregated.rows.fades (rows.fades granted).rows

/-- A client gets an id that is not in use, or its packet stays in its session. -/
def staysInside (s : Server) : Event → Prop
  | .accept conn => s.accepts conn → s.FreshId conn.now
  | .recv fd chunk => ∀ handled ∈ s.delivers (.recv fd chunk), handled.2.Insider handled.1
  | _ => True

theorem Server.Segregated.take {conn : Connection} {clients : ClientList}
    (segregated : s.Segregated) (fresh : s.FreshId conn.now)
    (taken : clientInit s.clients conn.now conn.ssl = some (i, clients)) :
    Server.Segregated { s with clients } := by
  have distinct := segregated.distinct.take fresh.clients taken
  obtain ⟨-, rfl⟩ := clientInit_some taken
  let t : Server := s.modify i (clientConfigure conn.now conn.ssl)
  have new : t.client i = clientConfigure conn.now conn.ssl (s.client i) := s.client_modify_self i _
  have kept {j : Slot} (ne : j ≠ i) : t.client j = s.client j := s.client_modify_of_ne _ ne
  refine ⟨distinct, fun j live => ?_, fun transfer created row listed same => ?_⟩
  · show (t.client j).state = .complete ↔ (t.client j).sessionId ≠ 0
    by_cases here : j = i
    · rw [here, new]
      simp [clientConfigure]
    · rw [kept here]
      refine segregated.registered j ?_
      rw [Server.Live, ← kept here]
      exact live
  · intro j k first second left right
    replace left : (t.client j).id = transfer.creatorId := left
    replace right : (t.client k).id = row.clientId := right
    have old_creator : j ≠ i := fun here => by
      rw [here, new] at left
      exact fresh.creators transfer created left.symm
    have old_client : k ≠ i := fun here => by
      rw [here, new] at right
      exact fresh.recipients row listed right.symm
    replace first : t.Live j := first
    replace second : t.Live k := second
    rw [kept old_creator] at left
    rw [kept old_client] at right
    rw [Server.Live, kept old_creator] at first
    rw [Server.Live, kept old_client] at second
    rcases segregated.rows transfer created row listed same j k first second left right with
      here | together
    · exact .inl here
    · obtain ⟨registered, registered', session, opened⟩ := together
      refine .inr ⟨?_, ?_, ?_, ?_⟩
      · exact (congrArg Client.state (kept old_creator)).trans registered
      · exact (congrArg Client.state (kept old_client)).trans registered'
      · show (t.client j).sessionId = (t.client k).sessionId
        rw [kept old_creator, kept old_client, session]
      · show (t.client j).sessionId ≠ 0
        rwa [kept old_creator]

theorem segregated_rule : PacketRule Server.Segregated fun _ => True where
  fail := fun _ _ _ _ => trivial
  drain := fun s i d segregated drains => by
    have rest := drains.rest
    refine segregated.next (.modify s i (fun _ => d) ?_ ?_ ?_ ?_) segregated.rows <;> rw [rest]
    exact fun live => live
  close := fun s fd deleted segregated => by
    rw [closeClient_eq]
    split
    · have unwatched : Server.Segregated { s with epoll := s.epoll.erase fd } :=
        segregated.next (.of_same (.of_clients rfl)) segregated.rows
      dsimp only
      split
      · exact unwatched
      · rename_i c _
        have sends := leaveSession_sends { s with epoll := s.epoll.erase fd } c
        have fades := sends.keeps (R := Database.Fades) (fades_rule.leavingPlan _ c)
        have left : Ends Server.Segregated (fun _ => True)
            (leaveSession { s with epoll := s.epoll.erase fd } c) :=
          (sends.ends.and fades).mono (fun t _ both => unwatched.next (.of_same both.1)
            (unwatched.rows.fades both.2.2.rows)) fun _ _ => trivial
        exact left.bind fun t kept => kept.next (.closed t fd) kept.rows
    · exact segregated
  frame := fun s _ _ segregated => segregated.next (.of_same (.of_clients rfl)) segregated.rows
  setFd := fun s i fd segregated =>
    segregated.next (.modify s i _ (fun live => live) rfl Iff.rfl rfl) segregated.rows
  secured := fun s i segregated connected => by
    refine segregated.next (.modify s i _ (fun _ => ?_) rfl ?_ rfl) segregated.rows
    · simp [Server.Live, connected]
    · simp [connected]
  received := fun s i buf segregated =>
    segregated.next (.modify s i _ (fun live => live) rfl Iff.rfl rfl) segregated.rows
  called := fun s i segregated => segregated.next (.of_same (.of_clients rfl)) segregated.rows

theorem Server.delivers_live {e : Event} (delivers : s.delivers e = some (c, t)) : t.Live c := by
  obtain ⟨fd, chunk, buf, -, found, rfl⟩ := delivers_received delivers
  have live := (clientFind_some found).1
  rwa [Server.Live, Server.handed_client, Server.received, Server.client_modify_self]

theorem Server.Segregated.step (segregated : s.Segregated) {e : Event} (met : staysInside s e) :
    Ends Server.Segregated (fun _ => True) (Quickshare.step s e) := by
  refine segregated_rule.step segregated e (fun conn i clients same closed unknown taken => ?_)
    fun c t delivers kept => ?_
  · subst same
    exact segregated.take (met ⟨⟨closed, unknown⟩, by rw [taken]; rfl⟩) taken
  · have live := Server.delivers_live delivers
    obtain ⟨fd, chunk, buf, rfl, -, -⟩ := delivers_received delivers
    exact kept.analizePacket live (met (c, t) delivers)

/-- What closing the client of `fd` enqueues stays in its session. -/
theorem closeClient_within (segregated : s.Segregated) (deleted : Bool)
    (here : fd ∈ s.epoll → clientFind s.clients fd = some c) :
    SendsWithin c s.sent (closeClient s fd deleted) := by
  rw [closeClient_eq]
  split
  · rename_i known
    have found := here known.2
    have unwatched := segregated_rule.frame s (s.epoll.erase fd) s.openFds segregated
    dsimp only
    rw [found]
    exact (leaveSession_within unwatched (clientFind_some found).1).bind fun t _ => .none rfl
  · exact GrowsWithin.none rfl

/-- What writing to the client of `fd` keeps, up to closing it and after. -/
structure Writing (c : Slot) (fd : Int) (sent : List Sent) (s : Server) : Prop where
  segregated : s.Segregated
  nodup : s.epoll.Nodup
  here : fd ∈ s.epoll → clientFind s.clients fd = some c
  grows : GrowsWithin c sent s

theorem writing_rule (c : Slot) (fd : Int) (deleted : Bool) (sent : List Sent) :
    WriteRuleAt fd deleted (Writing c fd sent) fun failed => GrowsWithin c sent failed.2 where
  fail := fun _ _ _ writing => writing.grows
  drain := fun s i d writing drains => by
    have written : (s.client i).Written d := ⟨drains.rest⟩
    refine ⟨segregated_rule.drain s i d writing.segregated drains, writing.nodup, ?_, writing.grows⟩
    rw [written.seats.find]
    exact writing.here
  close := fun s writing => by
    have within := writing.grows.after (closeClient_within writing.segregated deleted writing.here)
    have kept := segregated_rule.close s fd deleted writing.segregated
    have nodup := closeClient_nodup writing.nodup fd deleted
    have gone := closeClient_unlisted writing.nodup fd deleted
    refine (within.and (kept.and (nodup.and gone))).mono (fun t ended all => ?_)
      fun failed all => all.1
    obtain ⟨grows, segregated, nodup, gone⟩ := all
    refine ⟨segregated, nodup, fun listed => ?_, grows⟩
    by_cases known : deleted = true ∧ fd ∈ s.epoll
    · exact absurd ⟨known.1, listed⟩ gone
    · rw [closeClient_eq, if_neg known] at ended
      cases ended
      exact writing.here listed

theorem writeData_within (segregated : s.Segregated) (nodup : s.epoll.Nodup) (env : WriteEnv)
    (found : clientFind s.clients fd = some c) : SendsWithin c s.sent (writeData s fd env) := by
  have start : Writing c fd s.sent s := ⟨segregated, nodup, fun _ => found, .none rfl⟩
  exact ((writing_rule c fd env.deleted s.sent).writeData start env rfl).mono
    (fun _ _ writing => writing.grows) fun _ grows => grows

theorem recv_within {chunk : List UInt8} (segregated : s.Segregated)
    (met : staysInside s (.recv fd chunk)) (found : clientFind s.clients fd = some c) :
    SendsWithin c s.sent (step s (.recv fd chunk)) := by
  cases delivers : s.delivers (.recv fd chunk) with
  | none =>
    refine (recv_not_delivers delivers).mono (fun t _ idle => ?_) fun failed same => ?_
    · rcases idle with rfl | ⟨i, buf, rfl⟩ <;> exact .none rfl
    · exact .none (congrArg Server.sent same)
  | some handled =>
    obtain ⟨i, t⟩ := handled
    have live := Server.delivers_live delivers
    have insider := met (i, t) delivers
    rw [step_delivers delivers]
    obtain ⟨fd', chunk', buf, same, there, rfl⟩ := delivers_received delivers
    cases same
    obtain rfl : c = i := Option.some.inj (found.symm.trans there)
    have received := segregated_rule.handed segregated c buf
    exact (analizePacket_within received live insider).bind fun u _ => .none rfl

theorem SendsWithin.drop {r : Run Server} (sends : SendsWithin c s.sent r) :
    ∀ entry ∈ (Run.state r).sent.drop s.sent.length, entry.within c := by
  have grows : GrowsWithin c s.sent (Run.state r) := by
    cases r with
    | ok t => exact sends
    | error failed => exact sends
  obtain ⟨added, grown, near⟩ := grows
  rw [grown, List.drop_left]
  exact near

theorem step_isolated (segregated : s.Segregated) (nodup : s.epoll.Nodup) {e : Event}
    (met : staysInside s e) : isolated s e := by
  intro c acting
  apply SendsWithin.drop
  cases e with
  | recv fd chunk => exact recv_within segregated met acting
  | write fd env => exact writeData_within segregated nodup env acting
  | close fd deleted => exact closeClient_within segregated deleted fun _ => acting
  | _ => cases acting

end Step

/-- As long as ids in use are not given out again and packets stay in the session
of their sender, nothing a client does reaches anybody outside its session. -/
theorem isolated_of_staysInside (db : Database) (events : List Event)
    (inside : Guarded step staysInside (Server.init db) events) :
    Guarded step isolated (Server.init db) events := by
  let inv (s : Server) : Prop := s.Segregated ∧ s.epoll.Nodup
  have nobody (i : Slot) : ¬ (Server.init db).Live i := fun live => live rfl
  have start : inv (Server.init db) :=
    ⟨⟨fun i _ live => absurd live (nobody i), fun i live => absurd live (nobody i),
      fun _ _ _ _ _ i _ live => absurd live (nobody i)⟩, List.nodup_nil⟩
  refine inside.transfer start (fun s e t held met taken => ?_)
    fun s e held met => step_isolated held.1 held.2 met
  have segregated := held.1.step met
  have nodup := step_epoll_nodup held.2 e
  rw [taken] at segregated nodup
  exact ⟨segregated, nodup⟩

section Decide

variable (s : Server) (c : Slot)

instance (entry : Sent) : Decidable (entry.within c) := by
  unfold Sent.within
  infer_instance

instance (i j : Slot) : Decidable (s.Together i j) :=
  decidable_of_iff ((s.client i).state = .complete ∧ (s.client j).state = .complete ∧
      (s.client i).sessionId = (s.client j).sessionId ∧ (s.client i).sessionId ≠ 0)
    ⟨fun held => ⟨held.1, held.2.1, held.2.2.1, held.2.2.2⟩,
      fun held => ⟨held.left, held.right, held.same, held.opened⟩⟩

instance (a b : ClientId) : Decidable (s.Near a b) := by
  unfold Server.Near
  infer_instance

instance : Decidable (s.Insider c) :=
  have own : (s.requested c).all (· = (s.client c).id) = true ↔
      ∀ id ∈ s.requested c, id = (s.client c).id := by simp
  decidable_of_iff ((s.granted c → (s.client c).state = .complete ∨
        (s.requested c).all (· = (s.client c).id) = true) ∧
      (s.granted c → ∀ row ∈ s.db.tables.transferClients,
        row.transferId = (s.recorded c).2.1 → s.Near (s.client c).id row.clientId) ∧
      ((s.client c).decryptBuf.packet.type? = some .transferReply →
        ∀ row ∈ s.db.tables.transfers, row.transferId = (s.client c).decryptBuf.packet.tId →
          s.Near (s.client c).id row.creatorId) ∧
      ((s.client c).decryptBuf.packet.type? = some .transferData →
        ∀ row ∈ s.db.tables.transferClients,
          row.transferId = (s.client c).decryptBuf.packet.tId →
            row.accepted = 1 → s.Near (s.client c).id row.clientId))
    ⟨fun held => ⟨fun granted => (held.1 granted).imp_right own.mp, held.2.1, held.2.2.1,
        held.2.2.2⟩,
      fun held => ⟨fun granted => (held.request granted).imp_right own.mpr, held.leftover,
        held.reply, held.data⟩⟩

instance : (e : Event) → Decidable (staysInside s e)
  | .accept conn => inferInstanceAs (Decidable (s.accepts conn → s.FreshId conn.now))
  | .recv fd chunk => inferInstanceAs
      (Decidable (∀ handled ∈ s.delivers (.recv fd chunk), handled.2.Insider handled.1))
  | .handshake _ => isTrue trivial
  | .wantMore _ _ => isTrue trivial
  | .write _ _ => isTrue trivial
  | .close _ _ => isTrue trivial

end Decide

/-- A request between two members of a session, its reply and data for it. -/
def insidersRun : List Event :=
  connects 4 100 ++ connects 5 101 ++ packetFrom 4 .clientIntro (introBody 1) ++
    packetFrom 5 .clientIntro (introBody 0) ++ packetFrom 4 .transferRequest (requestBody 101) ++
    packetFrom 5 .transferReply (acceptBody 1) ++ packetFrom 4 .transferData (stateBody 1)

theorem isolated_of_staysInside_session : Guarded step isolated (Server.init .fresh) insidersRun :=
  isolated_of_staysInside .fresh insidersRun (by decide +kernel)

/-- Two clients join a session, the second accepts a file of the first, and a
third client without a session announces a packet. -/
def strangerRun : List Event :=
  connects 4 100 ++ connects 5 101 ++ connects 6 102 ++
    packetFrom 4 .clientIntro (introBody 1) ++ packetFrom 5 .clientIntro (introBody 0) ++
    packetFrom 4 .transferRequest (requestBody 101) ++
    packetFrom 5 .transferReply (acceptBody 1) ++
    (packetFrom 6 .transferData (stateBody 1)).take 1

/-- A client that is in no session sends data for a transfer of two others. -/
theorem isolated_fails : ¬ Guarded step isolated (Server.init .fresh)
    (strangerRun ++ [.recv 6 (stateBody 1)]) := by
  intro held
  have checked : Run.passes (fun s => decide (clientFind s.clients 6 = some 2 ∧
      ¬ ∀ entry ∈ (Run.state (step s (.recv 6 (stateBody 1)))).sent.drop s.sent.length,
        entry.within 2)) (run step (Server.init .fresh) strangerRun) = true := by
    decide +kernel
  obtain ⟨s, reached, leak⟩ := Run.passes_ok checked
  obtain ⟨acting, outside⟩ := of_decide_eq_true leak
  exact outside ((held.at reached) 2 acting)

end Quickshare
