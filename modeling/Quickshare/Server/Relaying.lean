import Quickshare.Server.Cancelling
import Mathlib.Data.List.Nodup

/-! Each copy of a relayed packet goes to one row. A client gets one copy exactly
if its rows are one, and nothing in `check_recipients` or in the table keeps a
client from being listed twice. -/

namespace Quickshare

open Runs

/-! The rows of a transfer -/

section Rows

variable {s t : Server} {c : Slot} {db next : Database} {tId : TransferId}

/-- No client has two rows for one transfer. -/
def Database.Unrepeated (db : Database) : Prop := db.tables.keys.Nodup

/-- A request that is granted names no client twice, and no row is left over for a client
it names and the id its transfer gets. -/
def requestsOnce (s : Server) (e : Event) : Prop :=
  ∀ c t, s.delivers e = some (c, t) → t.granted c → (t.requested c).Nodup ∧
    ∀ row ∈ t.db.tables.transferClients, row.clientId ∈ t.requested c →
      nextRowid (t.db.tables.transfers.map TransferRow.transferId) ≠ some row.transferId

instance (s : Server) (e : Event) : Decidable (requestsOnce s e) :=
  decidable_of_iff (∀ x ∈ s.delivers e, x.2.granted x.1 → (x.2.requested x.1).Nodup ∧
    ∀ row ∈ x.2.db.tables.transferClients, row.clientId ∈ x.2.requested x.1 →
      nextRowid (x.2.db.tables.transfers.map TransferRow.transferId) ≠ some row.transferId)
    ⟨fun all c t delivers => all (c, t) delivers, fun all x delivers => all x.1 x.2 delivers⟩

theorem Database.Unrepeated.grants {cId : ClientId} {recipients : List ClientId}
    (unrepeated : db.Unrepeated) (grants : db.Grants cId recipients tId next)
    (once : recipients.Nodup) (fresh : ∀ row ∈ db.tables.transferClients,
      row.clientId ∈ recipients → row.transferId ≠ tId) : next.Unrepeated := by
  have keys : next.tables.keys = db.tables.keys ++ recipients.map (tId, ·) := by
    simp [Tables.keys, grants.clients]
  rw [Database.Unrepeated, keys]
  refine List.nodup_append.mpr ⟨unrepeated, ?_, ?_⟩
  · exact List.Nodup.map (fun _ _ same => (Prod.mk.inj same).2) once
  · rintro key old _ new rfl
    obtain ⟨row, member, rfl⟩ := List.mem_map.mp old
    obtain ⟨id, named, same⟩ := List.mem_map.mp new
    obtain ⟨transfer, client⟩ := Prod.mk.inj same
    exact fresh row member (client ▸ named) transfer.symm

/-- Only a granted request adds rows. -/
theorem Database.Unrepeated.step {e : Event} (unrepeated : s.db.Unrepeated)
    (once : requestsOnce s e) :
    Ends (fun t => t.db.Unrepeated) (fun _ => True) (step s e) := by
  have thinner {s t : Server} (held : s.db.Unrepeated) (thins : s.db.Thins t.db) :
      t.db.Unrepeated := held.sublist thins.clients
  have rule : PacketRule (fun s => s.db.Unrepeated) fun _ => True := {
    fail := fun _ _ _ _ => trivial
    drain := fun _ _ _ held _ => held
    close := fun s fd deleted held => (closeClient_keeps thins_rule s fd deleted).mono
      (fun t _ kept => thinner held kept.2) fun _ _ => trivial
    frame := fun _ _ _ held => held
    setFd := fun _ _ _ held => held
    secured := fun _ _ held _ => held
    received := fun _ _ _ held => held
    called := fun _ _ held => held }
  refine rule.step unrepeated e (fun _ _ _ _ _ _ _ => unrepeated) fun c t delivers held => ?_
  by_cases granted : t.granted c
  · obtain ⟨named, fresh⟩ := once c t delivers granted
    refine (analizePacket_rows t c).mono (fun u _ rows => ?_) fun _ _ => trivial
    have grants := rows.granted granted
    refine held.grants grants named fun row member client same => ?_
    exact fresh row member client (same ▸ grants.rowid)
  · exact (analizePacket_keeps thins_rule granted).mono (fun u _ kept => thinner held kept.2)
      fun _ _ => trivial

end Rows

/-! One relayed packet -/

section Relay

variable {s t u : Server} {c i : Slot} {db : Database} {tId : TransferId} {plan : Plan} {p : Packet}

/-- `i` is connected and has a row for the transfer with its consent. -/
def Server.consents (s : Server) (tId : TransferId) (i : Slot) : Prop :=
  s.Live i ∧ ∃ row ∈ s.db.tables.transferClients,
    row.transferId = tId ∧ row.accepted = 1 ∧ row.clientId = (s.client i).id

instance (s : Server) (tId : TransferId) (i : Slot) : Decidable (s.consents tId i) :=
  inferInstanceAs (Decidable (s.Live i ∧ ∃ row ∈ _, _))

/-- The clients that the cursor of the packet `c` has sent returns. -/
def Server.relayed (s : Server) (c : Slot) : List ClientId :=
  let p := (s.client c).decryptBuf.packet
  match p.type? with
  | some .transferData => (dbGetClientAllAccepted s.db p.tId).1
  | some .transferComplete =>
    let (ids, db) := dbGetTransfer s.db (s.client c).id
    if p.tId ∈ ids then (dbGetClientAllAccepted db p.tId).1 else []
  | _ => []

/-- Each client that accepts gets one copy of the packet of `c`, and nobody else one. -/
def Server.RelaysOnce (s : Server) (c : Slot) (t : Server) : Prop :=
  s.Gains t fun i => if s.consents (s.client c).decryptBuf.packet.tId i
    then [(s.client c).decryptBuf.packet] else []

/-- The cursor returns each client that accepts, and its queue has room. -/
def Server.relayFits (s : Server) (c : Slot) : Prop :=
  ∀ i, s.consents (s.client c).decryptBuf.packet.tId i →
    (s.client i).id ∈ s.relayed c ∧ (s.client i).msgQueue.full ≠ true

instance (s : Server) (c : Slot) : Decidable (s.relayFits c) :=
  inferInstanceAs (Decidable (∀ i, s.consents (s.client c).decryptBuf.packet.tId i → _ ∈ _ ∧ _))

theorem dbGetClientAllAccepted_sublist (db : Database) (tId : TransferId) :
    (dbGetClientAllAccepted db tId).1.Sublist ((db.tables.transferClients.filter fun row =>
      row.transferId = tId ∧ row.accepted = 1).map TransferClientRow.clientId) := by
  refine (List.takeWhile_sublist _).trans (List.Sublist.map _ ?_)
  exact db.select_sublist fun tables => tables.transferClients.filter
    fun row => row.transferId = tId ∧ row.accepted = 1

/-- Where no client has two rows for a transfer, the cursor returns each client once. -/
theorem Database.Unrepeated.cursor (unrepeated : db.Unrepeated) (tId : TransferId) :
    (dbGetClientAllAccepted db tId).1.Nodup := by
  refine List.Nodup.sublist (dbGetClientAllAccepted_sublist db tId) ?_
  have keys : (db.tables.transferClients.filter fun row =>
      row.transferId = tId ∧ row.accepted = 1).Pairwise
        fun a b => (a.transferId, a.clientId) ≠ (b.transferId, b.clientId) :=
    (List.pairwise_map.mp unrepeated).sublist List.filter_sublist
  refine List.pairwise_map.mpr (keys.imp_of_mem fun first second differ same => differ ?_)
  have left := of_decide_eq_true (List.mem_filter.mp first).2
  have right := of_decide_eq_true (List.mem_filter.mp second).2
  rw [left.1, right.1, same]

/-- Copies to the clients of a cursor go to each client once exactly if the cursor returns
each that accepts and the queues have room. -/
theorem Sends.relaysOnce_iff {r : Run Server} {ids : List ClientId}
    (sends : Sends s (toConnected s id (fun _ _ => (s.client c).decryptBuf.packet) ids) db r)
    (valid : s.QueuesValid) (distinct : s.DistinctIds) (once : ids.Nodup)
    (listed : ∀ id ∈ ids, ∃ row ∈ s.db.tables.transferClients,
      row.transferId = (s.client c).decryptBuf.packet.tId ∧ row.accepted = 1 ∧ row.clientId = id) :
    (∃ t, r = .ok t ∧ s.RelaysOnce c t) ↔
      ∀ i, s.consents (s.client c).decryptBuf.packet.tId i →
        (s.client i).id ∈ ids ∧ (s.client i).msgQueue.full ≠ true := by
  have receivers : (toConnected s id (fun _ _ => (s.client c).decryptBuf.packet) ids).map Prod.fst =
      ids.filterMap (clientFindById s.clients) := toConnected_receivers ..
  have count (i : Slot) : ((toConnected s id (fun _ _ => (s.client c).decryptBuf.packet) ids).map
      Prod.fst).count i = if s.Live i ∧ (s.client i).id ∈ ids then 1 else 0 := by
    rw [receivers, distinct.count_found]
    by_cases live : s.Live i
    · simp [live, once.count]
    · simp [live]
  have toward (i : Slot) : (toConnected s id (fun _ _ => (s.client c).decryptBuf.packet) ids).toward i =
      (if s.Live i ∧ (s.client i).id ∈ ids then [(s.client c).decryptBuf.packet] else []).map
        fun x _ => x := by
    rw [toConnected_copies, Plan.toward_copies, ← receivers, count]
    split <;> rfl
  constructor
  · rintro ⟨t, done, relays⟩ i consents
    have same := (relays i).symm.trans (sends.gains valid done toward i)
    have both := List.append_cancel_left same
    dsimp only at both
    rw [if_pos consents] at both
    have named : s.Live i ∧ (s.client i).id ∈ ids := by
      by_contra missed
      rw [if_neg missed] at both
      cases both
    refine ⟨named.2, fun full => ?_⟩
    rcases sends.cases valid.bounded with ⟨fits, -⟩ | ⟨-, u, failed⟩
    · have room := fits i
      have length : (s.client i).msgQueue.count = (s.client i).msgQueue.len := by
        simpa [Queue.full] using full
      rw [count, if_pos named] at room
      omega
    · rw [done] at failed
      cases failed
  · intro fits
    have consents (i : Slot) : s.consents (s.client c).decryptBuf.packet.tId i ↔
        s.Live i ∧ (s.client i).id ∈ ids :=
      ⟨fun held => ⟨held.1, (fits i held).1⟩, fun named => ⟨named.1, listed _ named.2⟩⟩
    rcases sends.cases valid.bounded with ⟨-, t, done⟩ | ⟨large, -⟩
    · refine ⟨t, done, ?_⟩
      simp only [Server.RelaysOnce, consents]
      exact sends.gains valid done toward
    · refine absurd (fun i => ?_) large
      have bound := valid.bounded i
      rw [count]
      split
      · rename_i named
        have room : (s.client i).msgQueue.count ≠ (s.client i).msgQueue.len := by
          simpa [Queue.full] using (fits i ((consents i).mpr named)).2
        omega
      · exact bound

/-- `c` has sent data or a completion of a transfer it created. -/
def Server.relays (s : Server) (c : Slot) : Prop :=
  ((s.client c).decryptBuf.packet.type? = some .transferData ∨
      (s.client c).decryptBuf.packet.type? = some .transferComplete) ∧
    s.isCreator c (s.client c).decryptBuf.packet.tId

instance (s : Server) (c : Slot) : Decidable (s.relays c) :=
  inferInstanceAs (Decidable ((_ ∨ _) ∧ s.isCreator c (s.client c).decryptBuf.packet.tId))

/-- With one row for each client a packet is relayed once exactly if the cursor and the
queues allow it. -/
theorem analizePacket_relaysOnce_iff (unrepeated : s.db.Unrepeated) (valid : s.QueuesValid)
    (distinct : s.DistinctIds) (relays : s.relays c) :
    (∃ t, analizePacket s c = .ok t ∧ s.RelaysOnce c t) ↔ s.relayFits c := by
  unfold Server.relayFits Server.relayed
  rcases relays.1 with data | complete
  · have handled : analizePacket s c = packetData s c := by simp only [analizePacket, data]
    rw [handled]
    simp only [data]
    exact (packetData_sends s c).relaysOnce_iff valid distinct (unrepeated.cursor _)
      fun id member => mem_dbGetClientAllAccepted member
  · have handled : analizePacket s c = packetComplete s c := by
      simp only [analizePacket, complete]
    have sends := packetComplete_sends s c
    rw [handled]
    simp only [complete]
    unfold completePlan at sends
    dsimp only at sends
    have tables : (dbGetTransfer s.db (s.client c).id).2.tables = s.db.tables := by simp
    have read : (dbGetTransfer s.db (s.client c).id).2.Unrepeated := by
      rwa [Database.Unrepeated, tables]
    by_cases mine : (s.client c).decryptBuf.packet.tId ∈ (dbGetTransfer s.db (s.client c).id).1
    · rw [if_pos mine] at sends
      simp only [if_pos mine]
      refine Sends.relaysOnce_iff (by exact sends) valid distinct (read.cursor _) fun id member => ?_
      rw [← tables]
      exact mem_dbGetClientAllAccepted member
    · rw [if_neg mine] at sends
      simp only [if_neg mine]
      have none : Sends s (toConnected s id (fun _ _ => (s.client c).decryptBuf.packet) []) _ _ :=
        sends
      exact none.relaysOnce_iff valid distinct List.nodup_nil
        fun _ member => absurd member List.not_mem_nil

end Relay

section Run

variable {s t u : Server} {c : Slot} {e : Event}

/-- Data or a completion from the creator that arrives while ids are distinct is relayed once. -/
def relaysOnce (s : Server) (e : Event) : Prop :=
  s.DistinctIds → ∀ c t, s.delivers e = some (c, t) → t.relays c →
    ∃ u, step s e = .ok u ∧ t.RelaysOnce c u

/-- Data or a completion from the creator that arrives while ids are distinct finds each
client that accepts in the cursor, with room in its queue. -/
def relayFits (s : Server) (e : Event) : Prop :=
  s.DistinctIds → ∀ c t, s.delivers e = some (c, t) → t.relays c → t.relayFits c

instance (s : Server) (e : Event) : Decidable (relayFits s e) :=
  decidable_of_iff (s.DistinctIds → ∀ x ∈ s.delivers e, x.2.relays x.1 → x.2.relayFits x.1)
    ⟨fun all distinct c t delivers => all distinct (c, t) delivers,
      fun all distinct x delivers => all distinct x.1 x.2 delivers⟩

theorem Server.RelaysOnce.stores (relays : s.RelaysOnce c t) (same : SameStores t u) :
    s.RelaysOnce c u := fun i => (congrArg Queue.contents (same.queues i)).trans (relays i)

/-- Along every run in which no granted request names a client twice, each packet relayed
goes to every client that accepts once exactly if the cursors and the queues allow it. -/
theorem relays_once_iff {db : Database} (unrepeated : db.Unrepeated) (events : List Event)
    (once : Guarded step requestsOnce (Server.init db) events) :
    Guarded step relaysOnce (Server.init db) events ↔
      Guarded step relayFits (Server.init db) events := by
  let inv (s : Server) : Prop := s.db.Unrepeated ∧ s.QueuesValid
  have start : inv (Server.init db) := ⟨unrepeated, init_queuesValid db⟩
  refine guarded_iff_of_assumed once start (fun s e t held once taken => ?_)
    fun s e held _ => ?_
  · have kept := (held.1.step once).and (held.2.step e)
    rwa [taken] at kept
  · refine forall_congr' fun distinct => forall_congr' fun c => forall_congr' fun t =>
      forall_congr' fun delivers => forall_congr' fun relays => ?_
    rw [step_stores_iff (fun _ _ same relayed => relayed.stores same) delivers]
    refine analizePacket_relaysOnce_iff ?_ (held.2.delivered delivers)
      (distinct.delivered delivers) relays
    obtain ⟨fd, chunk, buf, -, -, rfl⟩ := delivers_received delivers
    exact held.1

end Run

/-- Two clients in a session; the first asks the second as often as `recipients` names it. -/
def offers (recipients : List Nat) : List Event :=
  connects 4 100 ++ connects 5 101 ++ packetFrom 4 .clientIntro (introBody 1) ++
    packetFrom 5 .clientIntro (introBody 0) ++ packetFrom 4 .transferRequest
      (Bytes.toLE 8 0 ++ Bytes.toLE 8 0 ++ recipients.flatMap (Bytes.toLE 8) ++
        List.replicate (requestSize - 16 - 8 * recipients.length) 0)

/-- The second accepts, and the first has announced a packet of data. -/
def dataAnnounced : List Event :=
  packetFrom 5 .transferReply (acceptBody 1) ++ (packetFrom 4 .transferData (stateBody 1)).take 1

/-- The second accepts, and the first sends `n` packets of data. -/
def dataSent (n : Nat) : List Event :=
  packetFrom 5 .transferReply (acceptBody 1) ++
    (List.replicate n (packetFrom 4 .transferData (stateBody 1))).flatten

theorem fresh_unrepeated : Database.fresh.Unrepeated := List.nodup_nil

/-- A client named once gets the packet once, unless its queue is full. -/
theorem relays_once_iff_single :
    (Guarded step relayFits (Server.init .fresh) (offers [101] ++ dataSent 1) ∧
      Guarded step relaysOnce (Server.init .fresh) (offers [101] ++ dataSent 1)) ∧
    ¬ Guarded step relayFits (Server.init .fresh) (offers [101] ++ dataSent 17) ∧
      ¬ Guarded step relaysOnce (Server.init .fresh) (offers [101] ++ dataSent 17) := by
  have once : Guarded step relayFits (Server.init .fresh) (offers [101] ++ dataSent 1) := by
    decide +kernel
  have full : ¬ Guarded step relayFits (Server.init .fresh) (offers [101] ++ dataSent 17) := by
    decide +kernel
  refine ⟨⟨once, ?_⟩, full, fun held => full ?_⟩
  · exact (relays_once_iff fresh_unrepeated _ (by decide +kernel)).mpr once
  · exact (relays_once_iff fresh_unrepeated _ (by decide +kernel)).mp held

/-- A client named twice gets every chunk twice. -/
theorem relays_once_fails : ¬ Guarded step relaysOnce (Server.init .fresh)
    (offers [101, 101] ++ dataAnnounced ++ [.recv 4 (stateBody 1)]) := by
  intro held
  have passed : Run.passes (fun s => (s.delivers (.recv 4 (stateBody 1))).any fun (c, t) =>
      (t.client c).decryptBuf.packet.type? = some .transferData ∧
        t.isCreator c (t.client c).decryptBuf.packet.tId ∧
        (∀ i j, s.Live i → s.Live j → (s.client i).id = (s.client j).id → i = j) ∧
        ((Run.state (step s (.recv 4 (stateBody 1)))).client 1).msgQueue.count =
          (t.client 1).msgQueue.count + 2)
      (run step (Server.init .fresh) (offers [101, 101] ++ dataAnnounced)) = true := by
    decide +kernel
  obtain ⟨s, reached, check⟩ := Run.passes_ok passed
  obtain ⟨⟨c, t⟩, delivers, found⟩ := (Option.any_eq_true _ _).mp check
  obtain ⟨data, creator, distinct, twice⟩ := of_decide_eq_true found
  obtain ⟨u, done, relays⟩ := held.at reached distinct c t delivers ⟨.inl data, creator⟩
  have queued := congrArg List.length (relays 1)
  have few : (if t.consents (t.client c).decryptBuf.packet.tId 1
      then [(t.client c).decryptBuf.packet] else []).length ≤ 1 := by
    split <;> simp
  rw [done] at twice
  simp only [List.length_append, Queue.contents_length] at queued
  replace twice : (u.client 1).msgQueue.count = (t.client 1).msgQueue.count + 2 := twice
  omega

end Quickshare
