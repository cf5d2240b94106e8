import Quickshare.Server.Framing
import Quickshare.Server.Freshness
import Quickshare.Server.Identity

/-! Who may act on a transfer. `packet_cancel` and `packet_complete` look their
transfer up through the sender's id; `packet_data` and `packet_reply` look it up by the
id in the packet alone and act for whoever sends it. An id is the second of an accept,
so who made a transfer, and for whom, is recorded here by the connections themselves. -/

namespace Quickshare

open Runs

variable {s t : Server} {c i : Slot} {tId : TransferId} {e : Event}

/-- The transfer has a row with the id of `c`. -/
def Server.isCreator (s : Server) (c : Slot) (tId : TransferId) : Prop :=
  ⟨tId, (s.client c).id⟩ ∈ s.db.tables.transfers

/-- The transfer has a row of a recipient with the id of `c`. -/
def Server.isRecipient (s : Server) (c : Slot) (tId : TransferId) : Prop :=
  ∃ row ∈ s.db.tables.transferClients, row.transferId = tId ∧ row.clientId = (s.client c).id

instance (s : Server) (c : Slot) (tId : TransferId) : Decidable (s.isCreator c tId) :=
  inferInstanceAs (Decidable (_ ∈ _))

instance (s : Server) (c : Slot) (tId : TransferId) : Decidable (s.isRecipient c tId) :=
  inferInstanceAs (Decidable (∃ row ∈ _, _))

/-- Which connections made and were asked for which transfers. A connection is known by
the number of the event that accepted it (kept for specifications). -/
structure Ledger where
  events : Nat
  holder : Slot → Nat
  maker : TransferId → Option Nat
  guests : TransferId → List Nat

def Ledger.start : Ledger := ⟨0, fun _ => 0, fun _ => none, fun _ => []⟩

/-- The transfers committed between two states. -/
def Server.opened (s t : Server) : List TransferId := t.committed.drop s.committed.length

/-- The clients to which the rows added between two states lead. -/
def Server.asked (s t : Server) : List Slot :=
  (t.db.tables.transferClients.drop s.db.tables.transferClients.length).filterMap fun row =>
    clientFindById s.clients row.clientId

/-- The ledger after the event that leads from `s` to `t`. A transfer is made by the client
whose packet was handled. -/
def Ledger.after (l : Ledger) (s t : Server) : Ledger where
  events := l.events + 1
  holder i := if s.Live i then l.holder i else l.events
  maker tId := if tId ∈ s.opened t
    then (t.calls.drop s.calls.length).head?.map fun call => l.holder call.1 else l.maker tId
  guests tId := if tId ∈ s.opened t
    then l.guests tId ++ (s.asked t).map l.holder else l.guests tId

/-- One event, with what it adds to the ledger. -/
def ledgerStep (s : Server × Ledger) (e : Event) : Except (Fault × Server) (Server × Ledger) := do
  let t ← step s.1 e
  return (t, s.2.after s.1 t)

namespace Ledger

/-- `c` created the transfer: its row has the id of `c`, and this connection made it. -/
def made (l : Ledger) (s : Server) (c : Slot) (tId : TransferId) : Prop :=
  s.isCreator c tId ∧ l.maker tId = some (l.holder c)

/-- `c` has a row for the transfer, and it was made for this connection. -/
def invited (l : Ledger) (s : Server) (c : Slot) (tId : TransferId) : Prop :=
  s.isRecipient c tId ∧ l.holder c ∈ l.guests tId

/-- `c` may send the packet it has sent about the transfer the packet names. -/
def authorised (l : Ledger) (s : Server) (c : Slot) : Prop :=
  let p := (s.client c).decryptBuf.packet
  match p.type? with
  | some .transferData | some .transferComplete => l.made s c p.tId
  | some .transferReply => l.invited s c p.tId
  | some .transferCancel => l.made s c p.tId ∨ l.invited s c p.tId
  | _ => True

end Ledger

/-- A table is changed or a packet enqueued. -/
def Acts (s : Server) (r : Run Server) : Prop :=
  (Run.state r).db.tables ≠ s.db.tables ∨ (Run.state r).sent ≠ s.sent

/-- The connected clients that accepted the transfer, in the order of the cursor. -/
def Server.accepting (s : Server) (tId : TransferId) : List Slot :=
  (dbGetClientAllAccepted s.db tId).1.filterMap (clientFindById s.clients)

/-- The creator in the first row of a transfer. -/
def Tables.creator (tables : Tables) (tId : TransferId) : ClientId :=
  match tables.transfers.find? (·.transferId = tId) with
  | some row => row.creatorId
  | none => 0

/-- The connected creator of the transfer, if the second statement from here finds one. -/
def Server.answered (s : Server) (tId : TransferId) : Option Slot :=
  if s.db.outcome (s.db.executed + 1) = some 0 ∨ s.db.tables.creator tId = 0 then none
  else clientFindById s.clients (s.db.tables.creator tId)

/-- There is no first receiver, or its queue is full. -/
def Server.blocked (s : Server) (receivers : List Slot) : Prop :=
  ∀ i ∈ receivers.head?, (s.client i).msgQueue.full = true

/-- Nothing stops a stranger to the transfer but the want of a receiver. -/
def Ledger.harmless (l : Ledger) (s : Server) (c : Slot) : Prop :=
  let p := (s.client c).decryptBuf.packet
  match p.type? with
  | some .transferData => l.made s c p.tId ∨ s.blocked (s.accepting p.tId)
  | some .transferReply => l.invited s c p.tId ∨ s.blocked (s.answered p.tId).toList
  | _ => True

theorem toConnected_receivers {Item : Type} (s : Server) (key : Item → ClientId)
    (packet : Item → Packet → Packet) (items : List Item) :
    (toConnected s key packet items).map Prod.fst =
      items.filterMap fun x => clientFindById s.clients (key x) := by
  induction items with
  | nil => rfl
  | cons x rest ih =>
    rw [List.filterMap_cons, ← ih]
    cases found : clientFindById s.clients (key x) <;> simp [toConnected, found]

theorem packetData_acts (s : Server) (c : Slot) :
    Acts s (packetData s c) ↔
      ¬ s.blocked (s.accepting (s.client c).decryptBuf.packet.tId) := by
  have whole : packetData s c = Server.sendAll { s with db := (dataPlan s c).2 } (dataPlan s c).1 :=
    toConnected_eq id (fun _ _ => (s.client c).decryptBuf.packet) (fun _ _ => rfl)
      { s with db := (dataPlan s c).2 } _
  have tables : (Run.state (packetData s c)).db.tables = s.db.tables := by
    rw [whole, Server.sendAll_db]
    simp [dataPlan, relayPlan]
  have quiet := (packetData_sends s c).quiet_iff
  have receivers : (dataPlan s c).1.map Prod.fst =
      s.accepting (s.client c).decryptBuf.packet.tId := toConnected_receivers s id _ _
  rw [receivers] at quiet
  rw [Acts, tables, Server.blocked, ← quiet]
  simp

/-- An answer of a client without a row changes none. -/
theorem clientAccept_stranger (stranger : ¬ s.isRecipient c tId) (accept : Bool) :
    (dbClientAccept s.db (s.client c).id tId accept).tables = s.db.tables := by
  have same : s.db.tables.transferClients.map (fun row =>
      if row.clientId = (s.client c).id ∧ row.transferId = tId
      then { row with accepted := if accept then 1 else 0 } else row) =
        s.db.tables.transferClients := by
    conv => rhs; rw [← List.map_id s.db.tables.transferClients]
    refine List.map_congr_left fun row member => if_neg fun here => ?_
    exact stranger ⟨row, member, here.2, here.1⟩
  cases outcome : s.db.outcome s.db.executed <;>
    simp only [dbClientAccept, Database.exec, Database.tick, outcome, same]

theorem replyCreator_tables (s : Server) (c : Slot) : (replyCreator s c).2.tables =
    (dbClientAccept s.db (s.client c).id (s.client c).decryptBuf.packet.tId
      ((s.client c).decryptBuf.packet.replyAccept ≠ 0)).tables := by
  simp [replyCreator]

theorem dbGetCreatorByTid_fst (db : Database) (tId : TransferId) :
    (dbGetCreatorByTid db tId).1 =
      if db.outcome db.executed = some 0 then 0 else db.tables.creator tId := by
  have first : db.tables.creator tId =
      match (db.tables.transfers.filter (·.transferId = tId)).head? with
      | some row => row.creatorId
      | none => 0 := by
    rw [List.head?_filter]
    rfl
  rw [first]
  simp only [dbGetCreatorByTid, Database.select, Database.tick]
  generalize db.tables.transfers.filter (·.transferId = tId) = rows
  rcases outcome : db.outcome db.executed with _ | stop
  · cases rows <;> simp
  · cases stop <;> cases rows <;> simp

/-- The update before the lookup changes no transfer. -/
theorem replyCreator_fst (s : Server) (c : Slot) : (replyCreator s c).1 =
    if s.db.outcome (s.db.executed + 1) = some 0 then 0
      else s.db.tables.creator (s.client c).decryptBuf.packet.tId := by
  let p := (s.client c).decryptBuf.packet
  have accepted (accept : Bool) : (dbClientAccept s.db (s.client c).id p.tId accept).executed =
      s.db.executed + 1 ∧
      (dbClientAccept s.db (s.client c).id p.tId accept).outcome = s.db.outcome ∧
      (dbClientAccept s.db (s.client c).id p.tId accept).tables.transfers =
        s.db.tables.transfers := by
    cases outcome : s.db.outcome s.db.executed <;>
      simp [dbClientAccept, Database.exec, Database.tick, outcome]
  obtain ⟨executed, outcome, transfers⟩ := accepted (p.replyAccept ≠ 0)
  rw [replyCreator, dbGetCreatorByTid_fst, executed, outcome, Tables.creator, transfers]
  rfl

theorem answered_eq (s : Server) (c : Slot) :
    s.answered (s.client c).decryptBuf.packet.tId =
      if (replyCreator s c).1 = 0 then none else clientFindById s.clients (replyCreator s c).1 := by
  rw [replyCreator_fst, Server.answered]
  by_cases failed : s.db.outcome (s.db.executed + 1) = some 0 <;> simp [failed]

/-- Without a row for the transfer a reply acts exactly if it can be passed on. -/
theorem packetReply_acts (stranger : ¬ s.isRecipient c (s.client c).decryptBuf.packet.tId) :
    Acts s (packetReply s c) ↔
      ¬ s.blocked (s.answered (s.client c).decryptBuf.packet.tId).toList := by
  have left : (replyCreator s c).2.tables = s.db.tables :=
    (replyCreator_tables s c).trans (clientAccept_stranger stranger _)
  rw [answered_eq]
  by_cases gone : s.creatorGone c
  · rw [packetReply_gone gone, if_neg gone.1, gone.2]
    simp [Acts, Run.state, left, Server.blocked]
  · have receivers : (replyPlan s c).1.map Prod.fst =
        (if (replyCreator s c).1 = 0 then none
          else clientFindById s.clients (replyCreator s c).1).toList := by
      simp only [replyPlan]
      split
      · rfl
      · rw [toConnected_receivers]
        cases found : clientFindById s.clients (replyCreator s c).1 <;> simp [found]
    have quiet := (packetReply_sends gone).quiet_iff
    have tables : (Run.state (packetReply s c)).db.tables = s.db.tables := by
      rw [packetReply_sendAll gone, Server.sendAll_db]
      exact left
    rw [receivers] at quiet
    rw [Acts, tables, Server.blocked, ← quiet]
    simp

theorem packetComplete_stranger
    (stranger : ¬ s.isCreator c (s.client c).decryptBuf.packet.tId) :
    ¬ Acts s (packetComplete s c) := by
  have absent : (s.client c).decryptBuf.packet.tId ∉ (dbGetTransfer s.db (s.client c).id).1 :=
    fun member => stranger (mem_dbGetTransfer member)
  have sends := packetComplete_sends s c
  simp only [completePlan, if_neg absent] at sends
  rw [sends.nothing]
  simp [Acts, Run.state]

theorem packetCancel_stranger
    (creator : ¬ s.isCreator c (s.client c).decryptBuf.packet.tId)
    (recipient : ¬ s.isRecipient c (s.client c).decryptBuf.packet.tId) :
    ¬ Acts s (packetCancel s c) := by
  have body (db : Database) (same : db.tables = s.db.tables) :
      (cancelBody s c db).1 = [] ∧ (cancelBody s c db).2.tables = s.db.tables := by
    have absent : (s.client c).decryptBuf.packet.tId ∉ (dbGetTransfer db (s.client c).id).1 :=
      fun member => creator (by rw [Server.isCreator, ← same]; exact mem_dbGetTransfer member)
    simp only [cancelBody, if_neg absent]
    cases found : (dbGetCreator (dbGetTransfer db (s.client c).id).2 (s.client c).id).1.find?
        (·.tId = (s.client c).decryptBuf.packet.tId) with
    | none => simp [same]
    | some info =>
      obtain ⟨⟨row, member, transfer, client⟩, -⟩ := mem_dbGetCreator (List.mem_of_find?_eq_some found)
      have here : info.tId = (s.client c).decryptBuf.packet.tId := by
        simpa using List.find?_some found
      rw [dbGetTransfer_snd, Database.tick_tables, same] at member
      exact absurd ⟨row, member, transfer.trans here, client⟩ recipient
  have sends := packetCancel_sends s c
  have opened := body (dbTransaction s.db .begin).2 (dbTransaction_begin_tables s.db)
  unfold cancelPlan inTransaction at sends
  dsimp only at sends
  split at sends
  · rw [opened.1] at sends
    rw [sends.nothing]
    simp [Acts, Run.state, opened.2]
  · rw [sends.nothing]
    simp [Acts, Run.state]


/-! The connections behind the rows -/

section Traced

variable {l : Ledger}

/-- Where an id of a connected client stands in a row, the row was made for its connection. -/
structure Traced (s : Server) (l : Ledger) : Prop where
  distinct : s.DistinctIds
  makers : ∀ i, s.Live i → ∀ row ∈ s.db.tables.transfers, row.creatorId = (s.client i).id →
    l.maker row.transferId = some (l.holder i)
  guests : ∀ i, s.Live i → ∀ row ∈ s.db.tables.transferClients, row.clientId = (s.client i).id →
    l.holder i ∈ l.guests row.transferId

/-- No connected client has the id, and no row mentions it. -/
structure Server.FreshId (s : Server) (id : ClientId) : Prop where
  clients : ∀ i, s.Live i → (s.client i).id ≠ id
  creators : ∀ row ∈ s.db.tables.transfers, row.creatorId ≠ id
  recipients : ∀ row ∈ s.db.tables.transferClients, row.clientId ≠ id

instance (s : Server) (id : ClientId) : Decidable (s.FreshId id) :=
  decidable_of_iff ((∀ i, s.Live i → (s.client i).id ≠ id) ∧
      (∀ row ∈ s.db.tables.transfers, row.creatorId ≠ id) ∧
      ∀ row ∈ s.db.tables.transferClients, row.clientId ≠ id)
    ⟨fun held => ⟨held.1, held.2.1, held.2.2⟩,
      fun held => ⟨held.clients, held.creators, held.recipients⟩⟩

/-- A client is accepted with an id that no connected client has, and no row. -/
def ownId (s : Server) : Event → Prop
  | .accept conn => s.accepts conn → s.FreshId conn.now
  | _ => True

instance (s : Server) : (e : Event) → Decidable (ownId s e)
  | .accept conn => inferInstanceAs (Decidable (s.accepts conn → s.FreshId conn.now))
  | .handshake _ | .wantMore _ _ | .recv _ _ | .write _ _ | .close _ _ => isTrue trivial

theorem apart_of_ownId (own : ownId s e) : apart s e := by
  cases e with
  | accept conn => exact fun accepts => (own accepts).clients
  | _ => trivial

/-- The client was connected before the event, or the event accepts it. -/
def Server.Known (s : Server) (e : Event) (t : Server) (i : Slot) : Prop :=
  s.Live i ∧ (t.client i).id = (s.client i).id ∨
    ¬ s.Live i ∧ ∃ conn, e = .accept conn ∧ s.accepts conn ∧ (t.client i).id = conn.now

/-- Whoever is connected is known. -/
def Server.KnowsAll (s : Server) (e : Event) (t : Server) : Prop := ∀ i, t.Live i → s.Known e t i

theorem Server.KnowsAll.of_live {u : Server} (known : s.KnowsAll e t)
    (live : ∀ i, u.Live i → t.Live i) (id : ∀ i, (u.client i).id = (t.client i).id) :
    s.KnowsAll e u := by
  intro i connected
  rcases known i (live i connected) with ⟨before, same⟩ | ⟨new, conn, accept, accepts, now⟩
  · exact .inl ⟨before, (id i).trans same⟩
  · exact .inr ⟨new, conn, accept, accepts, (id i).trans now⟩

theorem Server.KnowsAll.modify (known : s.KnowsAll e t) (f : Client → Client)
    (live : (f (t.client i)).state ≠ .empty → (t.client i).state ≠ .empty)
    (id : (f (t.client i)).id = (t.client i).id) : s.KnowsAll e (t.modify i f) :=
  known.of_live (t.modify_ids f live id).1 (t.modify_ids f live id).2

theorem knowsAll_rule (s : Server) (e : Event) : PacketRule (s.KnowsAll e) fun _ => True where
  toStepRule := .of_clients
    (fun t u same known => known.of_live (fun i => (same.live i).mp) same.id)
    (fun t i d known drains => by
      have rest := drains.rest
      refine known.modify (fun _ => d) ?_ ?_ <;> rw [rest]
      exact id)
    (fun t fd known => known.of_live (t.closed_live fd) (t.closed_id fd))
    (fun t i fd known => known.modify _ id rfl)
    (fun t i known connected => known.modify _ (by simp [connected]) rfl)
  received := fun t c buf known => known.modify _ id rfl
  called := fun t c known => known

/-- An event connects at most the client it accepts, and renames nobody. -/
theorem step_knowsAll (s : Server) (e : Event) :
    Ends (s.KnowsAll e) (fun _ => True) (step s e) := by
  refine (knowsAll_rule s e).step (fun i live => .inl ⟨live, rfl⟩) e
    (fun conn k clients accept closed unknown taken => ?_) fun c t delivers known => ?_
  · have accepts : s.accepts conn := ⟨⟨closed, unknown⟩, by rw [taken]; rfl⟩
    obtain ⟨empty, rfl⟩ := clientInit_some taken
    intro i live
    by_cases here : i = k
    · subst here
      have new : (s.clients.modify i (clientConfigure conn.now conn.ssl)).list i =
          clientConfigure conn.now conn.ssl (s.clients.list i) := s.clients.modify_self i _
      refine .inr ⟨fun held => held empty, conn, accept, accepts, ?_⟩
      simp only [Server.client, new]
      rfl
    · have kept : (s.clients.modify k (clientConfigure conn.now conn.ssl)).list i =
          s.clients.list i := s.clients.modify_of_ne _ here
      simp only [Server.Live, Server.client, kept] at live
      refine .inl ⟨live, ?_⟩
      simp only [Server.client, kept]
  · obtain ⟨fd, chunk, buf, -, found, rfl⟩ := delivers_received delivers
    have live : (s.handed c buf).Live c := by
      rw [Server.Live, Server.handed_client, Server.received, Server.client_modify_self]
      exact (clientFind_some found).1
    exact (analizePacket_touches (s.handed c buf) c).mono
      (fun t _ handled => known.of_live (handled.live live) handled.id) fun _ _ => trivial

theorem Ledger.after_holder (l : Ledger) (t : Server) (live : s.Live i) :
    (l.after s t).holder i = l.holder i := if_pos live

/-- Where no transfer is committed the ledger keeps what it has of them. -/
theorem Ledger.after_quiet (l : Ledger) (committed : t.committed = s.committed) :
    (l.after s t).maker = l.maker ∧ (l.after s t).guests = l.guests := by
  have nothing : s.opened t = [] := by rw [Server.opened, committed, List.drop_length]
  constructor
  · funext tId
    exact if_neg (by simp [nothing])
  · funext tId
    exact if_neg (by simp [nothing])

/-- Rows that only fade stay traced. -/
theorem Traced.fades (traced : Traced s l) (own : ownId s e) (distinct : t.DistinctIds)
    (known : s.KnowsAll e t) (committed : t.committed = s.committed) (fades : s.db.Fades t.db) :
    Traced t (l.after s t) := by
  obtain ⟨makers, guests⟩ := l.after_quiet committed
  refine ⟨distinct, fun i live row member creator => ?_, fun i live row member client => ?_⟩
  · have old := fades.rows.transfers row member
    rw [makers]
    rcases known i live with ⟨before, same⟩ | ⟨-, conn, rfl, accepts, now⟩
    · rw [l.after_holder t before]
      exact traced.makers i before row old (creator.trans same)
    · exact absurd (creator.trans now) ((own accepts).creators row old)
  · obtain ⟨old, held, transfer, same⟩ := fades.rows.clients row member
    rw [guests, ← transfer]
    rcases known i live with ⟨before, kept⟩ | ⟨-, conn, rfl, accepts, now⟩
    · rw [l.after_holder t before]
      exact traced.guests i before old held (same.trans (client.trans kept))
    · exact absurd (same.trans (client.trans now)) ((own accepts).recipients old held)

/-- A granted request is entered under the connection that sent it, with those it names. -/
theorem Traced.grants {recipients : List ClientId} {p : Packet} (traced : Traced s l)
    (distinct : t.DistinctIds) (live : ∀ i, t.Live i → s.Live i)
    (id : ∀ i, (t.client i).id = (s.client i).id) (caller : s.Live c)
    (calls : t.calls = s.calls ++ [(c, p)]) (committed : t.committed = s.committed ++ [tId])
    (grants : s.db.Grants (s.client c).id recipients tId t.db) : Traced t (l.after s t) := by
  have opened : s.opened t = [tId] := by rw [Server.opened, committed, List.drop_left]
  have makers (other : TransferId) : (l.after s t).maker other =
      if other = tId then some (l.holder c) else l.maker other := by
    simp [Ledger.after, opened, calls]
  have guests (other : TransferId) : (l.after s t).guests other =
      if other = tId then l.guests other ++ (s.asked t).map l.holder else l.guests other := by
    simp [Ledger.after, opened]
  have asked : s.asked t = recipients.filterMap (clientFindById s.clients) := by
    rw [Server.asked, grants.clients, List.drop_left, List.filterMap_map]
    rfl
  refine ⟨distinct, fun i connected row member creator => ?_, fun i connected row member client => ?_⟩
  · have before := live i connected
    rw [id] at creator
    rw [grants.transfers, List.mem_append] at member
    rw [makers, l.after_holder t before]
    rcases member with old | new
    · have ne : row.transferId ≠ tId := by
        rintro rfl
        have listed := List.mem_map_of_mem (f := TransferRow.transferId) old
        rcases nextRowid_some grants.rowid with ⟨empty, -⟩ | ⟨last, -, greatest, succ⟩
        · rw [empty] at listed
          cases listed
        · have below := greatest _ listed
          rw [Int64.le_iff_toInt_le] at below
          omega
      rw [if_neg ne]
      exact traced.makers i before row old creator
    · rw [List.mem_singleton] at new
      subst new
      have same : i = c := traced.distinct i c before caller creator.symm
      rw [if_pos rfl, same]
  · have before := live i connected
    rw [id] at client
    rw [grants.clients, List.mem_append] at member
    rw [guests, l.after_holder t before]
    rcases member with old | new
    · have held := traced.guests i before row old client
      split
      · exact List.mem_append_left _ held
      · exact held
    · obtain ⟨recipient, named, rfl⟩ := List.mem_map.mp new
      have here : recipient = (s.client i).id := client
      have found : clientFindById s.clients recipient = some i := by
        rw [here]
        exact traced.distinct.foundById i before
      rw [if_pos rfl, asked]
      exact List.mem_append_right _
        (List.mem_map_of_mem (List.mem_filterMap.mpr ⟨recipient, named, found⟩))

/-- An event other than a granted request commits nothing and only fades rows. -/
theorem step_fades (other : ∀ c t, s.delivers e = some (c, t) → ¬ t.granted c) :
    Ends (fun t => t.committed = s.committed ∧ s.db.Fades t.db) (fun _ => True) (step s e) := by
  have rule : PacketRule (fun t => t.committed = s.committed ∧ s.db.Fades t.db) fun _ => True :=
    rows_rule (P := fun t => t.committed = s.committed ∧ s.db.Fades t.db) (C := fun _ => True)
      (fun t u same fades held => ⟨same.trans held.1, held.2.trans fades⟩) fun _ _ => trivial
  refine rule.step ⟨rfl, .refl s.db⟩ e (fun _ _ _ _ _ _ _ => ⟨rfl, .refl s.db⟩)
    fun c t delivers held => ?_
  exact Ends.mono (analizePacket_keeps fades_rule (other c t delivers))
    (fun u _ ends => ⟨ends.1.trans held.1, held.2.trans ends.2⟩) fun _ _ => trivial

theorem Traced.step (traced : Traced s l) (own : ownId s e) (taken : step s e = .ok t) :
    Traced t (l.after s t) := by
  have distinct : t.DistinctIds := by
    have kept := traced.distinct.step (apart_of_ownId own)
    rwa [taken] at kept
  by_cases request : ∃ c u, s.delivers e = some (c, u) ∧ u.granted c
  · obtain ⟨c, u, delivers, granted⟩ := request
    have calls := step_calls delivers
    rw [taken] at calls
    rw [step_delivers delivers] at taken
    obtain ⟨fd, chunk, buf, -, found, rfl⟩ := delivers_received delivers
    obtain ⟨v, handled, done⟩ := bind_ok taken
    cases done
    have rows := analizePacket_rows (s.handed c buf) c
    have touched := analizePacket_touches (s.handed c buf) c
    rw [handled] at rows touched
    have after : RowsAfter (s.handed c buf) c v := rows
    have same : Handled c (s.handed c buf) v := touched
    have caller : s.Live c := (clientFind_some found).1
    have received := s.modify_ids (i := c) (fun client => { client with decryptBuf := buf }) id rfl
    have rewound := v.modify_ids (i := c) (fun client =>
      { client with decryptBuf := { client.decryptBuf with len := 0, size := 0 } }) id rfl
    have registered : (s.handed c buf).Live c := by
      rwa [Server.Live, Server.handed_client, Server.received, Server.client_modify_self]
    have committed := after.committed
    rw [Server.created, if_pos granted] at committed
    have grants := after.granted granted
    have sender : ((s.handed c buf).client c).id = (s.client c).id := received.2 c
    rw [sender] at grants
    refine traced.grants distinct (fun i live => ?_) (fun i => ?_) caller calls committed grants
    · exact received.1 i (same.live registered i (rewound.1 i live))
    · exact (rewound.2 i).trans ((same.id i).trans (received.2 i))
  · have known := step_knowsAll s e
    have kept := step_fades fun c u delivers granted => request ⟨c, u, delivers, granted⟩
    rw [taken] at known kept
    exact traced.fades own distinct known kept.1 kept.2

theorem Traced.made_iff (traced : Traced s l) (live : s.Live c) :
    l.made s c tId ↔ s.isCreator c tId :=
  ⟨And.left, fun creator => ⟨creator, traced.makers c live _ creator rfl⟩⟩

theorem Traced.invited_iff (traced : Traced s l) (live : s.Live c) :
    l.invited s c tId ↔ s.isRecipient c tId := by
  refine ⟨And.left, fun recipient => ⟨recipient, ?_⟩⟩
  obtain ⟨row, member, transfer, client⟩ := recipient
  exact transfer ▸ traced.guests c live row member client

/-- A packet acts for an authorised sender only, exactly if it is no data or
reply packet of a stranger that finds a receiver with room. -/
theorem Traced.acts_iff (traced : Traced s l) (live : s.Live c) :
    (Acts s (analizePacket s c) → l.authorised s c) ↔ l.harmless s c := by
  have idle : ¬ Acts s (.ok s) := by simp [Acts, Run.state]
  simp only [analizePacket, Ledger.authorised, Ledger.harmless, traced.made_iff live,
    traced.invited_iff live]
  cases type : (s.client c).decryptBuf.packet.type? with
  | none => simp
  | some kind =>
    cases kind with
    | transferData =>
      dsimp only
      rw [packetData_acts, not_imp_comm, or_iff_not_imp_left]
    | transferReply =>
      dsimp only
      by_cases recipient : s.isRecipient c (s.client c).decryptBuf.packet.tId
      · simp [recipient]
      · simp only [recipient, imp_false, false_or, packetReply_acts recipient, not_not]
    | transferComplete =>
      refine iff_of_true (fun acts => ?_) trivial
      by_contra stranger
      exact packetComplete_stranger stranger acts
    | transferCancel =>
      refine iff_of_true (fun acts => ?_) trivial
      by_contra stranger
      exact packetCancel_stranger (mt .inl stranger) (mt .inr stranger) acts
    | _ => simp

/-- Whatever packet a connected client has sent, it acts for an authorised sender only
exactly if nothing stops a stranger but the want of a receiver. -/
def actsIff (s : Server × Ledger) : Prop :=
  ∀ c, s.1.Live c → ∀ buf, (Acts (s.1.handed c buf) (analizePacket (s.1.handed c buf) c) →
    s.2.authorised (s.1.handed c buf) c) ↔ s.2.harmless (s.1.handed c buf) c

theorem Traced.handed (traced : Traced s l) (c : Slot) (buf : Buffer packetMaxSize) :
    Traced (s.handed c buf) l := by
  have received := s.modify_ids (i := c) (fun client => { client with decryptBuf := buf }) id rfl
  have distinct : (s.received c buf).DistinctIds := traced.distinct.of_live received.1 received.2
  refine ⟨distinct, fun i live row member creator => ?_, fun i live row member client => ?_⟩
  · exact traced.makers i (received.1 i live) row member (creator.trans (received.2 i))
  · exact traced.guests i (received.1 i live) row member (client.trans (received.2 i))

theorem Traced.actsIff (traced : Traced s l) : actsIff (s, l) := by
  intro c live buf
  refine (traced.handed c buf).acts_iff ?_
  rwa [Server.Live, Server.handed_client, Server.received, Server.client_modify_self]

theorem Traced.run {events : List Event} (traced : Traced s l)
    (own : Guarded Quickshare.step ownId s events) :
    Throughout ledgerStep Quickshare.actsIff (s, l) events := by
  induction events generalizing s l with
  | nil => exact traced.actsIff
  | cons e rest ih =>
    refine ⟨traced.actsIff, fun next taken => ?_⟩
    obtain ⟨t, done, same⟩ := bind_ok taken
    cases same
    exact ih (traced.step own.1 done) (own.2 t done)

/-- In every run whose clients all get an id that nobody has, a packet acts for an authorised
sender only exactly if it is no data or reply packet of a stranger that finds a receiver
with room. -/
theorem authorised_iff (db : Database) {events : List Event}
    (own : Guarded step ownId (Server.init db) events) :
    Throughout ledgerStep actsIff (Server.init db, .start) events := by
  have start : Traced (Server.init db) .start :=
    ⟨fun i _ live => absurd rfl live, fun _ live => absurd rfl live, fun _ live => absurd rfl live⟩
  exact start.run own

end Traced

instance (l : Ledger) (s : Server) (c : Slot) (tId : TransferId) : Decidable (l.made s c tId) :=
  inferInstanceAs (Decidable (_ ∧ _))

instance (l : Ledger) (s : Server) (c : Slot) (tId : TransferId) : Decidable (l.invited s c tId) :=
  inferInstanceAs (Decidable (_ ∧ _))

instance (l : Ledger) (s : Server) (c : Slot) : Decidable (l.authorised s c) := by
  unfold Ledger.authorised
  dsimp only
  split <;> infer_instance

/-- The packet that `e` completes enqueues a packet or deletes a transfer. -/
def visible (s : Server × Ledger) (e : Event) (check : Server → Slot → Bool) : Bool :=
  (s.1.delivers e).any fun found =>
    let u := Run.state (analizePacket found.2 found.1)
    (found.2.sent.length < u.sent.length ∨
      u.db.tables.transfers.length < found.2.db.tables.transfers.length) ∧ check found.2 found.1

theorem acts_of_visible {s : Server × Ledger} {check : Server → Slot → Bool}
    (seen : visible s e check = true) :
    ∃ c t, s.1.delivers e = some (c, t) ∧ Acts t (analizePacket t c) ∧ check t c = true := by
  obtain ⟨⟨c, t⟩, delivers, found⟩ := (Option.any_eq_true _ _).mp seen
  obtain ⟨changed, checked⟩ := of_decide_eq_true found
  refine ⟨c, t, delivers, ?_, checked⟩
  rcases changed with longer | shorter
  · refine .inr fun same => ?_
    rw [same] at longer
    exact Nat.lt_irrefl _ longer
  · refine .inl fun same => ?_
    rw [same] at shorter
    exact Nat.lt_irrefl _ shorter

/-- Two clients join a session, and the second accepts a file of the first; `others` connect
in between. -/
def accepted (others : List Event) : List Event :=
  connects 4 100 ++ others ++ connects 5 102 ++
    packetFrom 4 .clientIntro (introBody 1) ++ packetFrom 5 .clientIntro (introBody 0) ++
    packetFrom 4 .transferRequest (requestBody 102) ++ packetFrom 5 .transferReply (acceptBody 1)

/-- `fd` has announced a packet about the transfer. -/
def announced (fd : Int) (type : PacketType) : List Event :=
  (packetFrom fd type (stateBody 1)).take 1

/-- The data of the creator is passed on. -/
theorem authorised_iff_creator : ∃ s c t,
    run ledgerStep (Server.init .fresh, .start) (accepted [] ++ announced 4 .transferData) = .ok s ∧
    s.1.delivers (.recv 4 (stateBody 1)) = some (c, t) ∧ Acts t (analizePacket t c) ∧
    s.2.authorised t c ∧ s.2.harmless t c := by
  have own : Guarded step ownId (Server.init .fresh) (accepted [] ++ announced 4 .transferData) := by
    decide +kernel
  have seen : Run.passes (fun s => visible s (.recv 4 (stateBody 1)) fun t c => s.2.authorised t c)
      (run ledgerStep (Server.init .fresh, .start)
        (accepted [] ++ announced 4 .transferData)) = true := by
    decide +kernel
  obtain ⟨s, reached, found⟩ := Run.passes_ok seen
  obtain ⟨c, t, delivers, acts, allowed⟩ := acts_of_visible found
  obtain ⟨fd, chunk, buf, -, live, rfl⟩ := delivers_received delivers
  have allowed := of_decide_eq_true allowed
  have same := (authorised_iff .fresh own).final reached c (clientFind_some live).1 buf
  exact ⟨s, c, _, reached, delivers, acts, allowed, same.mp fun _ => allowed⟩

/-- A packet acts for a client that may not send it. -/
def breaches (events : List Event) (e : Event) : Prop :=
  ∃ s c t, run ledgerStep (Server.init .fresh, .start) events = .ok s ∧
    s.1.delivers e = some (c, t) ∧ Acts t (analizePacket t c) ∧ ¬ s.2.authorised t c

theorem breaches_of_visible {events : List Event}
    (seen : Run.passes (fun s => visible s e fun t c => decide (¬ s.2.authorised t c))
      (run ledgerStep (Server.init .fresh, .start) events) = true) : breaches events e := by
  obtain ⟨s, reached, found⟩ := Run.passes_ok seen
  obtain ⟨c, t, delivers, acts, stranger⟩ := acts_of_visible found
  exact ⟨s, c, t, reached, delivers, acts, of_decide_eq_true stranger⟩

/-- The data of a third client reaches the second, and a third client accepted in the same
second as the first takes back its transfer. -/
theorem authorised_fails :
    breaches (accepted (connects 6 101) ++ announced 6 .transferData) (.recv 6 (stateBody 1)) ∧
      breaches (accepted (connects 6 100) ++ announced 6 .transferCancel) (.recv 6 (stateBody 1)) := by
  constructor
  · exact breaches_of_visible (by decide +kernel)
  · exact breaches_of_visible (by decide +kernel)

end Quickshare
