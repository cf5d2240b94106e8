import Quickshare.Server.Contents
import Quickshare.Server.Identity
import Quickshare.Server.Rows

/-! `packet_transfer` is all or nothing. Rows are inserted while recipients are
still being checked; whichever statement fails, the rollback takes them back and
the sender alone hears of it. -/

namespace Quickshare

open Runs

/-! The packets a plan of copies adds -/

section Copies

variable {Item : Type} {s t u : Server} {c i r : Slot} {plan : Plan}

theorem Queue.made_const (q : Queue Item) (items : List Item) :
    q.made (items.map fun x _ => x) = items := by
  induction items generalizing q with
  | nil => rfl
  | cons x rest ih => exact congrArg (x :: ·) (ih _)

theorem Plan.toward_copies (receivers : List Slot) (f : Packet → Packet) (i : Slot) :
    Plan.toward (receivers.map (·, f)) i = List.replicate (receivers.count i) f := by
  induction receivers with
  | nil => rfl
  | cons r rest ih =>
    by_cases here : r = i
    · subst here
      simpa [Plan.toward, List.replicate_succ] using ih
    · simpa [Plan.toward, here, List.count_cons_of_ne here] using ih

theorem toConnected_copies (s : Server) (f : Packet → Packet) (ids : List ClientId) :
    toConnected s id (fun _ => f) ids =
      (ids.filterMap (clientFindById s.clients)).map (·, f) := by
  induction ids with
  | nil => rfl
  | cons x rest ih =>
    have first : toConnected s id (fun _ => f) (x :: rest) =
        ((clientFindById s.clients x).map (·, f)).toList ++ toConnected s id (fun _ => f) rest := rfl
    rw [first, ih]
    cases found : clientFindById s.clients x <;> simp [found]

/-- Ids that are all found are those of the clients found. -/
theorem found_ids {ids : List ClientId}
    (found : ∀ id ∈ ids, ∃ r, clientFindById s.clients id = some r) :
    (ids.filterMap (clientFindById s.clients)).map (fun r => (s.client r).id) = ids := by
  induction ids with
  | nil => rfl
  | cons x rest ih =>
    obtain ⟨r, here⟩ := found x (List.mem_cons_self ..)
    have later := ih fun id member => found id (List.mem_cons_of_mem _ member)
    have same : (s.client r).id = x := (clientFindById_some here).2
    rw [List.filterMap_cons_some here, List.map_cons, later, same]

/-- `t` is `s` with `packets i` appended to what waits for each client `i`. -/
def Server.Gains (s t : Server) (packets : Slot → List Packet) : Prop :=
  ∀ i, (t.client i).msgQueue.contents = (s.client i).msgQueue.contents ++ packets i

theorem Sends.gains {db : Database} {r : Run Server} {packets : Slot → List Packet}
    (sends : Sends s plan db r) (valid : s.QueuesValid) (done : r = .ok t)
    (toward : ∀ i, plan.toward i = (packets i).map fun x _ => x) : s.Gains t packets := by
  intro i
  rw [sends.contents valid done i, toward i, Queue.made_const]

end Copies

/-! The outcomes -/

section Outcomes

variable {s t : Server} {c : Slot} {tId : TransferId}

/-- `c` alone gets a packet, which says that its request is invalid, and the
tables are as before. -/
structure Server.Rejects (s : Server) (c : Slot) (t : Server) : Prop where
  tables : t.db.tables = s.db.tables
  answer : ∃ invalid : Packet, invalid.type? = some .transferInvalid ∧
    s.Gains t fun i => if i = c then [invalid] else []

/-- The request of `c` becomes the transfer `tId`: its rows are added, `c` is told
its id, and every recipient gets a copy with that id for each of its entries. -/
structure Server.Accepts (s : Server) (c : Slot) (tId : TransferId) (t : Server) : Prop where
  new : ∀ row ∈ s.db.tables.transfers, row.transferId ≠ tId
  transfers : t.db.tables.transfers = s.db.tables.transfers ++ [⟨tId, (s.client c).id⟩]
  clients : t.db.tables.transferClients =
    s.db.tables.transferClients ++ (s.requested c).map (⟨tId, ·, -1⟩)
  announced : ∃ (valid copy : Packet) (recipients : List Slot),
    (valid.type? = some .transferValid ∧ valid.tId = tId) ∧
    (copy.type? = some .transferRequest ∧ copy.tId = tId ∧ copy.hdrFrom = (s.client c).id) ∧
    (∀ r ∈ recipients, s.Live r) ∧
    recipients.map (fun r => (s.client r).id) = s.requested c ∧
    s.Gains t fun i => (if i = c then [valid] else []) ++ List.replicate (recipients.count i) copy

theorem transferResponse_type {type : PacketType} (req : Packet) (tId : TransferId) :
    (transferResponse req type tId).type? = some type := by
  unfold transferResponse
  split
  · rw [Packet.type?_storeInt64 _ _ (by decide), Packet.type?_packetHdr]
  · exact Packet.type?_packetHdr type requestSize req

theorem transferResponse_tId (req : Packet) (tId : TransferId) :
    (transferResponse req .transferValid tId).tId = tId :=
  Bytes.Mem.loadInt64_storeInt64 _ (by decide)

/-- The copy of a request that goes to its recipients. -/
def requestCopy (req : Packet) (sender : ClientId) (tId : TransferId) : Packet :=
  (req.storeInt64 16 sender).storeInt64 8 tId

theorem requestCopy_type (req : Packet) (sender : ClientId) (tId : TransferId) :
    (requestCopy req sender tId).type? = req.type? := by
  rw [requestCopy, Packet.type?_storeInt64 _ _ (by decide), Packet.type?_storeInt64 _ _ (by decide)]

theorem requestCopy_tId (req : Packet) (sender : ClientId) (tId : TransferId) :
    (requestCopy req sender tId).tId = tId :=
  Bytes.Mem.loadInt64_storeInt64 _ (by decide)

theorem requestCopy_from (req : Packet) (sender : ClientId) (tId : TransferId) :
    (requestCopy req sender tId).hdrFrom = sender := by
  have kept : (requestCopy req sender tId).hdrFrom = Packet.hdrFrom (req.storeInt64 16 sender) :=
    Bytes.Mem.loadInt64_store_apart _ (.inr (by decide))
  rw [kept]
  exact Bytes.Mem.loadInt64_storeInt64 _ (by decide)

theorem refusePlan_toward (s : Server) (c i : Slot) : (refusePlan s c).toward i =
    (if i = c then [transferResponse (s.client c).decryptBuf.packet .transferInvalid 0]
      else []).map fun x _ => x := by
  by_cases here : i = c
  · subst here
    simp [refusePlan, Plan.toward]
  · simp [refusePlan, Plan.toward, here, Ne.symm here]

/-- A refusal that leaves the tables as they were rejects the request. -/
theorem Sends.rejects {db : Database} {r : Run Server} (sends : Sends s (refusePlan s c) db r)
    (tables : db.tables = s.db.tables) (valid : s.QueuesValid) (done : r = .ok t) :
    s.Rejects c t := by
  have left : t.db = db := by
    rw [done] at sends
    exact sends.db_ok
  have gains := sends.gains valid done (refusePlan_toward s c)
  exact ⟨by rw [left, tables], _, transferResponse_type _ 0, gains⟩

theorem grantPlan_toward (s : Server) (c i : Slot) (p : Packet) (tId : TransferId) :
    (grantPlan s c p tId).toward i =
      ((if i = c then [transferResponse p .transferValid tId] else []) ++
        List.replicate (((requestIds p (List.range transferClientsMax)).filterMap
          (clientFindById s.clients)).count i) (requestCopy p (s.client c).id tId)).map
            fun x _ => x := by
  have whole : grantPlan s c p tId = [(c, fun _ => transferResponse p .transferValid tId)] ++
      ((requestIds p (List.range transferClientsMax)).filterMap (clientFindById s.clients)).map
        (·, fun _ => requestCopy p (s.client c).id tId) := by
    rw [← toConnected_copies]
    rfl
  rw [whole, Plan.toward_append, Plan.toward_copies]
  generalize requestCopy p (s.client c).id tId = copy
  generalize transferResponse p .transferValid tId = response
  rw [List.map_append, List.map_replicate]
  congr 1
  by_cases here : i = c
  · subst here
    simp [Plan.toward]
  · simp [Plan.toward, here, Ne.symm here]

/-- The id of a new row is in no row so far. -/
theorem Database.Grants.unused {db next : Database} {cId : ClientId} {recipients : List ClientId}
    (grants : db.Grants cId recipients tId next) :
    ∀ row ∈ db.tables.transfers, row.transferId ≠ tId := by
  intro row member same
  have listed := List.mem_map_of_mem (f := TransferRow.transferId) member
  rcases nextRowid_some grants.rowid with ⟨empty, -⟩ | ⟨last, -, greatest, succ⟩
  · rw [empty] at listed
    cases listed
  · have below := greatest _ listed
    rw [same, Int64.le_iff_toInt_le] at below
    omega

theorem packetTransfer_accepts (valid : s.QueuesValid)
    (request : (s.client c).decryptBuf.packet.type? = some .transferRequest)
    (begun : s.begun.1 = true) (recorded : (s.recorded c).1 = true)
    (done : packetTransfer s c = .ok t) : s.Accepts c (s.recorded c).2.1 t := by
  have sends := packetTransfer_granted begun recorded
  have grants := recorded_grants begun recorded
  have left : t.db = (s.recorded c).2.2 := by
    rw [done] at sends
    exact sends.db_ok
  refine ⟨grants.unused, by rw [left, grants.transfers], by rw [left, grants.clients], ?_⟩
  have gains := sends.gains (valid.of_queues fun i => rfl) done
    fun i => grantPlan_toward s c i _ _
  refine ⟨_, _, _, ⟨transferResponse_type _ _, transferResponse_tId _ _⟩,
    ⟨(requestCopy_type _ _ _).trans request, requestCopy_tId _ _ _, requestCopy_from _ _ _⟩,
    fun r member => ?_, found_ids fun id member => ?_, gains⟩
  · obtain ⟨id, -, found⟩ := List.mem_filterMap.mp member
    exact (clientFindById_some found).1
  · obtain ⟨r, found, -⟩ := recordTransfer_true recorded id member
    exact ⟨r, found⟩

theorem begun_tables_same (s : Server) : s.begun.2.tables = s.db.tables :=
  dbTransaction_begin_tables s.db

/-- Without a full queue a request is rejected or accepted as a whole. -/
theorem packetTransfer_whole (valid : s.QueuesValid)
    (request : (s.client c).decryptBuf.packet.type? = some .transferRequest)
    (room : ¬ Overflows (packetTransfer s c)) :
    s.Rejects c (Run.state (packetTransfer s c)) ∨
      ∃ tId, s.Accepts c tId (Run.state (packetTransfer s c)) := by
  have finishes {s : Server} {plan : Plan} {db : Database} {r : Run Server}
      (sends : Sends s plan db r) (room : ¬ Overflows r) : ∃ t, r = .ok t := by
    have full := sends.fault
    cases r with
    | ok t => exact ⟨t, rfl⟩
    | error failed =>
      obtain ⟨fault, t⟩ := failed
      obtain rfl : fault = Fault.packet := full
      exact absurd ⟨t, rfl⟩ room
  by_cases begun : s.begun.1 = true
  · by_cases recorded : (s.recorded c).1 = true
    · obtain ⟨t, done⟩ := finishes (packetTransfer_granted begun recorded) room
      rw [done]
      exact .inr ⟨_, packetTransfer_accepts valid request begun recorded done⟩
    · have refused : (s.recorded c).1 = false := by simpa using recorded
      obtain ⟨r, sends, same⟩ := packetTransfer_refused begun refused
      have free : ¬ Overflows r := fun full => room <| by
        obtain ⟨t, failed⟩ := full
        exact ⟨t, by rw [same, failed]; rfl⟩
      obtain ⟨t, done⟩ := finishes sends free
      -- The log that follows may leave its buffer, with the answer sent and the rows gone.
      have kept : Run.state (packetTransfer s c) = t := by
        rw [same, done]
        generalize (debugTransfer (s.client c).decryptBuf.packet).inside = inside
        cases inside <;> rfl
      rw [kept]
      exact .inl (sends.rejects (refused_tables begun refused).1 valid done)
  · have sends := packetTransfer_busy (c := c) (by simpa using begun)
    obtain ⟨t, done⟩ := finishes sends room
    rw [done]
    exact .inl (sends.rejects (begun_tables_same s) valid done)

end Outcomes

/-! Runs -/

section Server

variable {s t u : Server} {c i : Slot} {tId : TransferId} {e : Event} {events : List Event}

theorem reached_queuesValid {db : Database} (reached : run step (Server.init db) events = .ok s) :
    s.QueuesValid :=
  run_invariant (init_queuesValid db) (fun s e t valid taken => by
    have kept := valid.step e
    rwa [taken] at kept) reached

theorem Server.QueuesValid.delivered (valid : s.QueuesValid) (delivers : s.delivers e = some (c, t)) :
    t.QueuesValid := by
  obtain ⟨fd, chunk, buf, -, -, rfl⟩ := delivers_received delivers
  have received : (s.received c buf).QueuesValid := valid.modify _ (valid c)
  exact received

/-- The tables and the queues are the same in both states. -/
structure SameStores (s t : Server) : Prop where
  tables : t.db.tables = s.db.tables
  queues : ∀ i, (t.client i).msgQueue = (s.client i).msgQueue

theorem rewound_stores (s : Server) (c : Slot) : SameStores s (s.rewound c) where
  tables := rfl
  queues := fun i => s.clients.modify_field c (fun client =>
    { client with decryptBuf := { client.decryptBuf with len := 0, size := 0 } })
    Client.msgQueue (fun _ => rfl) i

/-- What the handler of a packet leaves in the tables and the queues the step leaves. -/
theorem step_stores (delivers : s.delivers e = some (c, t)) :
    SameStores (Run.state (analizePacket t c)) (Run.state (step s e)) := by
  rw [step_delivers delivers]
  cases analizePacket t c with
  | ok u => exact rewound_stores u c
  | error failed => exact ⟨rfl, fun i => rfl⟩

/-- What only the tables and the queues matter to holds after a step that handles a packet
exactly if it holds after its handler. -/
theorem step_stores_iff {good : Server → Prop} (blind : ∀ u v, SameStores u v → good u → good v)
    (delivers : s.delivers e = some (c, t)) :
    (∃ u, step s e = .ok u ∧ good u) ↔ ∃ u, analizePacket t c = .ok u ∧ good u := by
  rw [step_delivers delivers]
  cases analizePacket t c with
  | error failed =>
    constructor <;> rintro ⟨u, done, -⟩ <;> cases done
  | ok v =>
    have same := rewound_stores v c
    constructor
    · rintro ⟨u, done, held⟩
      cases done
      exact ⟨v, rfl, blind _ v ⟨same.tables.symm, fun i => (same.queues i).symm⟩ held⟩
    · rintro ⟨u, done, held⟩
      cases done
      exact ⟨_, rfl, blind v _ same held⟩

theorem step_overflows (delivers : s.delivers e = some (c, t)) :
    Overflows (step s e) ↔ Overflows (analizePacket t c) := by
  rw [step_delivers delivers]
  exact overflows_map _ _

theorem Server.Gains.stores {packets : Slot → List Packet} (gains : s.Gains t packets)
    (same : SameStores t u) : s.Gains u packets :=
  fun i => (congrArg Queue.contents (same.queues i)).trans (gains i)

theorem Server.Rejects.stores (rejects : s.Rejects c t) (same : SameStores t u) :
    s.Rejects c u := by
  obtain ⟨invalid, type, gains⟩ := rejects.answer
  exact ⟨same.tables.trans rejects.tables, invalid, type, gains.stores same⟩

theorem Server.Accepts.stores (accepts : s.Accepts c tId t) (same : SameStores t u) :
    s.Accepts c tId u := by
  obtain ⟨valid, copy, recipients, answer, request, live, ids, gains⟩ := accepts.announced
  exact ⟨accepts.new, (congrArg Tables.transfers same.tables).trans accepts.transfers,
    (congrArg Tables.transferClients same.tables).trans accepts.clients,
    valid, copy, recipients, answer, request, live, ids, gains.stores same⟩

/-- In every state reached, whichever statements fail, a request handled without
finding a full queue is rejected or accepted as a whole. -/
theorem request_whole {db : Database} (reached : run step (Server.init db) events = .ok s)
    (delivers : s.delivers e = some (c, t))
    (request : (t.client c).decryptBuf.packet.type? = some .transferRequest)
    (room : ¬ Overflows (step s e)) :
    t.Rejects c (Run.state (step s e)) ∨ ∃ tId, t.Accepts c tId (Run.state (step s e)) := by
  have handled : analizePacket t c = packetTransfer t c := by
    simp only [analizePacket, request]
  have same := step_stores delivers
  rw [step_overflows delivers, handled] at room
  rw [handled] at same
  have valid := (reached_queuesValid reached).delivered delivers
  rcases packetTransfer_whole valid request room with rejects | ⟨tId, accepts⟩
  · exact .inl (rejects.stores same)
  · exact .inr ⟨tId, accepts.stores same⟩

end Server

/-- Two clients are in a session, and the header of a request has been read. -/
def requestStarts : List Event :=
  connects 4 100 ++ connects 5 101 ++ packetFrom 4 .clientIntro (introBody 1) ++
    packetFrom 5 .clientIntro (introBody 0) ++
    [.recv 4 (Bytes.toLE 4 PacketType.transferRequest.code ++ Bytes.toLE 4 requestSize)]

/-- The event delivers a request while there is no transfer, no queue is full, and
the transfers are then `rows`. -/
def requestMakes (rows : List TransferRow) (s : Server) (e : Event) : Bool :=
  (s.delivers e).any fun found =>
    (found.2.client found.1).decryptBuf.packet.type? = some .transferRequest ∧
      (step s e).isOk ∧ found.2.db.tables.transfers = [] ∧
      (Run.state (step s e)).db.tables.transfers = rows

/-- The rest of a request arrives. Asking for the other client makes transfer 1,
asking for nobody's id makes nothing. -/
theorem request_whole_both : ∃ s, run step (Server.init .fresh) requestStarts = .ok s ∧
    (∃ c t, s.delivers (.recv 4 (requestBody 101)) = some (c, t) ∧
      t.Accepts c 1 (Run.state (step s (.recv 4 (requestBody 101))))) ∧
    ∃ c t, s.delivers (.recv 4 (requestBody 999)) = some (c, t) ∧
      t.Rejects c (Run.state (step s (.recv 4 (requestBody 999)))) := by
  have passed : Run.passes (fun s => requestMakes [⟨1, 100⟩] s (.recv 4 (requestBody 101)) &&
      requestMakes [] s (.recv 4 (requestBody 999)))
      (run step (Server.init .fresh) requestStarts) = true := by decide +kernel
  obtain ⟨s, reached, check⟩ := Run.passes_ok passed
  obtain ⟨asked, refused⟩ := (Bool.and_eq_true _ _).mp check
  have whole : ∀ e rows, requestMakes rows s e = true → ∃ c t, s.delivers e = some (c, t) ∧
      t.db.tables.transfers = [] ∧ (Run.state (step s e)).db.tables.transfers = rows ∧
      (t.Rejects c (Run.state (step s e)) ∨ ∃ tId, t.Accepts c tId (Run.state (step s e))) := by
    intro e rows found
    obtain ⟨⟨c, t⟩, delivers, facts⟩ := (Option.any_eq_true ..).mp found
    obtain ⟨request, room, empty, made⟩ := by simpa using facts
    refine ⟨c, t, delivers, empty, made, request_whole reached delivers request ?_⟩
    rintro ⟨u, full⟩
    rw [full] at room
    cases room
  refine ⟨s, reached, ?_, ?_⟩
  · obtain ⟨c, t, delivers, empty, made, rejects | ⟨tId, accepts⟩⟩ := whole _ _ asked
    · have kept := congrArg Tables.transfers rejects.tables
      simp [made, empty] at kept
    · have row := accepts.transfers
      simp only [made, empty, List.nil_append, List.cons.injEq, TransferRow.mk.injEq] at row
      obtain ⟨⟨same, -⟩, -⟩ := row
      exact ⟨c, t, delivers, same ▸ accepts⟩
  · obtain ⟨c, t, delivers, empty, made, rejects | ⟨tId, accepts⟩⟩ := whole _ _ refused
    · exact ⟨c, t, delivers, rejects⟩
    · have row := accepts.transfers
      simp [made, empty] at row

end Quickshare
