import Quickshare.Server.Leaving
import Quickshare.Server.Relaying
import Quickshare.Server.StaleInput
import Quickshare.System.Views

/-! What the rows and the plans of the server say of one transfer. -/

namespace Quickshare

open Bytes Runs Relay

section Rows

variable {tables : Tables} {db next : Database} {t tId : TransferId} {id cId : ClientId}

theorem Tables.row_of_mem (once : tables.keys.Nodup) {row : TransferClientRow}
    (member : row ∈ tables.transferClients) (transfer : row.transferId = t) (client : row.clientId = id) :
    tables.row t id = row.answer := by
  have found : (tables.transferClients.find? fun row => row.transferId = t ∧ row.clientId = id) =
      some row := by
    cases here : tables.transferClients.find? fun row => row.transferId = t ∧ row.clientId = id with
    | none => simpa [transfer, client] using List.find?_eq_none.mp here row member
    | some other =>
      have named := List.find?_some here
      simp only [decide_eq_true_eq] at named
      rw [List.inj_on_of_nodup_map once (List.mem_of_find?_eq_some here) member]
      rw [named.1, named.2, transfer, client]
  rw [Tables.row, found]

theorem Tables.row_none (absent : ∀ row ∈ tables.transferClients, row.transferId = t → row.clientId ≠ id) :
    tables.row t id = .none := by
  have none : (tables.transferClients.find? fun row => row.transferId = t ∧ row.clientId = id) =
      Option.none := by
    refine List.find?_eq_none.mpr fun row member => ?_
    simpa using absent row member
  rw [Tables.row, none]

/-- A row says something other than that there is none. -/
theorem Tables.exists_of_row (row : tables.row t id ≠ .none) :
    ∃ r ∈ tables.transferClients, r.transferId = t ∧ r.clientId = id ∧ tables.row t id = r.answer := by
  unfold Tables.row at row ⊢
  cases here : tables.transferClients.find? fun row => row.transferId = t ∧ row.clientId = id with
  | none =>
    rw [here] at row
    exact absurd rfl row
  | some r =>
    have named := List.find?_some here
    simp only [decide_eq_true_eq] at named
    exact ⟨r, List.mem_of_find?_eq_some here, named.1, named.2, rfl⟩

theorem TransferClientRow.answer_ne_none (row : TransferClientRow) : row.answer ≠ .none := by
  unfold answer
  split
  · simp
  · split <;> simp

theorem TransferClientRow.answer_accepted {row : TransferClientRow} :
    row.answer = .accepted ↔ row.accepted = 1 := by
  unfold answer
  split
  · simp [*]
  · split <;> simp [*]

/-- Where rows are only deleted, each is as it was or gone. -/
theorem Tables.row_fewer (once : tables.keys.Nodup) {fewer : Tables}
    (kept : ∀ row ∈ fewer.transferClients, row ∈ tables.transferClients) (t : TransferId)
    (id : ClientId) : fewer.row t id = tables.row t id ∨ fewer.row t id = .none := by
  by_cases none : fewer.row t id = .none
  · exact .inr none
  · obtain ⟨row, member, transfer, client, same⟩ := exists_of_row none
    exact .inl (same.trans (row_of_mem once (kept row member) transfer client).symm)

/-- Rows of other transfers do not matter. -/
theorem Tables.row_congr {other : Tables}
    (same : (other.transferClients.filter fun row => row.transferId = t) =
      tables.transferClients.filter fun row => row.transferId = t) (id : ClientId) :
    other.row t id = tables.row t id := by
  have one (rows : List TransferClientRow) :
      (rows.find? fun row => row.transferId = t ∧ row.clientId = id) =
        (rows.filter fun row => row.transferId = t).find? fun row => row.clientId = id := by
    rw [List.find?_filter]
    simp
  rw [Tables.row, Tables.row, one, one, same]

/-- A transfer that is deleted has no rows, and the others keep theirs. -/
theorem Tables.without_row (tables : Tables) (tId t : TransferId) (id : ClientId) :
    (tables.without tId).row t id = if t = tId then .none else tables.row t id := by
  by_cases here : t = tId
  · rw [if_pos here]
    refine row_none fun row member transfer => ?_
    have other : row.transferId ≠ tId := by simpa using (List.mem_filter.mp member).2
    exact absurd (transfer.trans here) other
  · rw [if_neg here]
    refine row_congr ?_ id
    rw [Tables.without, List.filter_filter]
    refine List.filter_congr fun row _ => ?_
    by_cases same : row.transferId = t
    · simp [same, here]
    · simp [same]

/-- An answer is recorded where its client has a row. -/
theorem accepted_row (works : ∀ n, db.outcome n = none) (accept : Bool) :
    (dbClientAccept db cId tId accept).tables.row t id =
      if t = tId ∧ id = cId then
        if db.tables.row t id = .none then .none else if accept then .accepted else .denied
      else db.tables.row t id := by
  have tables : (dbClientAccept db cId tId accept).tables = { db.tables with
      transferClients := db.tables.transferClients.map fun row =>
        if row.clientId = cId ∧ row.transferId = tId
        then { row with accepted := if accept then 1 else 0 } else row } := by
    simp only [dbClientAccept, Database.exec, Database.tick, works]
  have keys : ((fun row : TransferClientRow => decide (row.transferId = t ∧ row.clientId = id)) ∘
      fun row => if row.clientId = cId ∧ row.transferId = tId
        then { row with accepted := if accept then 1 else 0 } else row) =
      fun row => decide (row.transferId = t ∧ row.clientId = id) := by
    funext row
    simp only [Function.comp]
    split <;> rfl
  rw [tables, Tables.row, Tables.row, List.find?_map, keys]
  cases found : db.tables.transferClients.find? fun row => row.transferId = t ∧ row.clientId = id with
  | none => simp
  | some row =>
    have named := List.find?_some found
    simp only [decide_eq_true_eq] at named
    simp only [Option.map_some, named.1, named.2]
    by_cases here : t = tId ∧ id = cId
    · rw [if_pos here, if_pos ⟨here.2, here.1⟩, if_neg row.answer_ne_none]
      cases accept <;> rfl
    · rw [if_neg here, if_neg fun both => here ⟨both.2, both.1⟩]

/-- Granting a request adds an unanswered row for each client that it names. -/
theorem Database.Grants.row {recipients : List ClientId} (grants : db.Grants cId recipients tId next)
    (linked : ∀ row ∈ db.tables.transferClients, row.transferId ≠ tId) (t : TransferId) (id : ClientId) :
    next.tables.row t id =
      if t = tId then if id ∈ recipients then .asked else .none else db.tables.row t id := by
  by_cases here : t = tId
  · subst here
    rw [if_pos rfl, Tables.row, grants.clients, List.find?_append]
    have old : (db.tables.transferClients.find? fun row => row.transferId = t ∧ row.clientId = id) =
        none := by
      refine List.find?_eq_none.mpr fun row member => ?_
      simp [linked row member]
    rw [old, Option.none_or, List.find?_map]
    by_cases named : id ∈ recipients
    · rw [if_pos named]
      cases found : recipients.find? ((fun row : TransferClientRow =>
          decide (row.transferId = t ∧ row.clientId = id)) ∘ fun id => ⟨t, id, -1⟩) with
      | none => simpa using List.find?_eq_none.mp found id named
      | some other => rfl
    · rw [if_neg named]
      have none : (recipients.find? ((fun row : TransferClientRow =>
          decide (row.transferId = t ∧ row.clientId = id)) ∘ fun id => ⟨t, id, -1⟩)) = Option.none := by
        refine List.find?_eq_none.mpr fun other member => ?_
        have apart : other ≠ id := fun same => named (same ▸ member)
        simpa using apart
      rw [none]
      rfl
  · rw [if_neg here]
    refine Tables.row_congr ?_ id
    have new : (recipients.map fun id => (⟨tId, id, -1⟩ : TransferClientRow)).filter
        (fun row => row.transferId = t) = [] := by
      refine List.filter_eq_nil_iff.mpr fun row member => ?_
      obtain ⟨other, -, rfl⟩ := List.mem_map.mp member
      simpa using Ne.symm here
    rw [grants.clients, List.filter_append, new, List.append_nil]

/-- A cursor over those that accept a transfer returns each of them once. -/
theorem accepted_filter (works : ∀ n, db.outcome n = none)
    (named : ∀ row ∈ db.tables.transferClients, row.clientId ≠ 0) (once : db.Unrepeated)
    (t : TransferId) (id : ClientId) :
    (dbGetClientAllAccepted db t).1.filter (· = id) =
      if db.tables.row t id = .accepted then [id] else [] := by
  have rows : (dbGetClientAllAccepted db t).1 = (db.tables.transferClients.filter fun row =>
      row.transferId = t ∧ row.accepted = 1).map TransferClientRow.clientId := by
    simp only [dbGetClientAllAccepted, Database.select, Database.tick, works]
    refine List.takeWhile_eq_self_iff.mpr fun other member => ?_
    obtain ⟨row, listed, rfl⟩ := List.mem_map.mp member
    simpa using named row (List.mem_filter.mp listed).1
  have member : id ∈ (dbGetClientAllAccepted db t).1 ↔ db.tables.row t id = .accepted := by
    rw [rows, List.mem_map]
    constructor
    · rintro ⟨row, listed, client⟩
      obtain ⟨held, both⟩ := List.mem_filter.mp listed
      simp only [decide_eq_true_eq] at both
      rw [Tables.row_of_mem once held both.1 client]
      exact TransferClientRow.answer_accepted.mpr both.2
    · intro accepted
      have some : db.tables.row t id ≠ .none := by simp [accepted]
      obtain ⟨row, held, transfer, client, same⟩ := Tables.exists_of_row some
      refine ⟨row, List.mem_filter.mpr ⟨held, ?_⟩, client⟩
      simpa [transfer] using TransferClientRow.answer_accepted.mp (same.symm.trans accepted)
  rw [List.filter_eq, (once.cursor t).count]
  by_cases accepted : db.tables.row t id = .accepted
  · rw [if_pos (member.mpr accepted), if_pos accepted]
    rfl
  · rw [if_neg (mt member.mp accepted), if_neg accepted]
    rfl

end Rows

section Plans

variable {Item : Type} {t : TransferId} {source : List UInt8} {fs : List (Packet → Packet)}
  {sender : ClientId}

/-- What packets of the server are seen as. -/
def downViews (t : TransferId) (source : List UInt8) (packets : List Packet) : List (Down ClientId UInt8) :=
  packets.filterMap fun p => Parcel.downView t ⟨p, source⟩

theorem downViews_append (first second : List Packet) :
    downViews t source (first ++ second) = downViews t source first ++ downViews t source second :=
  List.filterMap_append

theorem downViews_made (q : Queue Packet) (items : List Item) (packet : Item → Packet → Packet)
    (view : Item → Option (Down ClientId UInt8))
    (same : ∀ x ∈ items, ∀ old, Parcel.downView t ⟨packet x old, source⟩ = view x) :
    downViews t source (q.made (items.map packet)) = items.filterMap view := by
  induction items generalizing q with
  | nil => rfl
  | cons x rest ih =>
    have first := same x (List.mem_cons_self ..) (q.items q.head)
    have later := ih (q.pushed (packet x)) fun y member => same y (List.mem_cons_of_mem x member)
    simp only [downViews] at later
    rw [List.map_cons, Queue.made, downViews, List.filterMap_cons, List.filterMap_cons, first, later]

theorem downViews_nothing (q : Queue Packet)
    (unseen : ∀ f ∈ fs, ∀ old, Parcel.downView t ⟨f old, source⟩ = none) :
    downViews t source (q.made fs) = [] := by
  have all : ∀ p ∈ q.made fs, Parcel.downView t ⟨p, source⟩ = none := Queue.made_forall q unseen
  exact List.filterMap_eq_nil_iff.mpr all

/-- Packets that at most tell of one client are that many answers of it. -/
theorem downViews_told (q : Queue Packet)
    (told : ∀ f ∈ fs, ∀ old, Parcel.downView t ⟨f old, source⟩ = none ∨
      Parcel.downView t ⟨f old, source⟩ = some (.answer sender)) :
    ∃ ids : List ClientId, (∀ i ∈ ids, i = sender) ∧ downViews t source (q.made fs) = ids.map .answer := by
  induction fs generalizing q with
  | nil => exact ⟨[], nofun, rfl⟩
  | cons f rest ih =>
    obtain ⟨ids, same, later⟩ := ih (q.pushed f) fun g member => told g (List.mem_cons_of_mem f member)
    have whole : downViews t source (q.made (f :: rest)) =
        (Parcel.downView t ⟨f (q.items q.head), source⟩).toList ++ ids.map .answer := by
      simp only [downViews, Queue.made, List.filterMap_cons] at later ⊢
      rw [later]
      cases Parcel.downView t ⟨f (q.items q.head), source⟩ <;> rfl
    rcases told f (List.mem_cons_self ..) (q.items q.head) with none | one
    · exact ⟨ids, same, by rw [whole, none]; rfl⟩
    · refine ⟨sender :: ids, ?_, by rw [whole, one]; rfl⟩
      intro i member
      rcases List.mem_cons.mp member with here | later
      · exact here
      · exact same i later

/-! Grants -/

/-- The answer to a request repeats it behind the transfer id. -/
theorem valid_load (req : Packet) (tId : TransferId) {k : Nat} (behind : 16 ≤ k) :
    (transferResponse req .transferValid tId).loadInt64 k = req.loadInt64 k := by
  have read : Mem.read (Packet.packetHdr .transferValid requestSize req) k 8 = req.read k 8 :=
    Packet.read_packetHdr _ _ _ (Nat.le_trans (by decide) behind)
  have kept : Mem.loadInt64 (Packet.packetHdr .transferValid requestSize req) k = req.loadInt64 k :=
    congrArg (fun bytes => (UInt64.ofNat (ofLE bytes)).toInt64) read
  rw [transferResponse, if_pos rfl]
  exact (Mem.loadInt64_store_apart _ (.inr behind)).trans kept

theorem valid_named (req : Packet) (tId : TransferId) :
    (transferResponse req .transferValid tId).named = req.named :=
  congrArg (List.takeWhile fun id => decide (id ≠ 0)) (List.map_congr_left fun i _ =>
    valid_load req tId (by omega))

/-! Cancels -/

variable {s : Server} {c : Slot} {db : Database}

/-- The tables after a cancel of `tId` by the client `cId`, and whether it told anybody. -/
inductive CancelledRows (tables : Tables) (cId : ClientId) (tId : TransferId) : Plan → Tables → Prop
  | owner (known : ∃ creator, ⟨tId, creator⟩ ∈ tables.transfers) :
      CancelledRows tables cId tId plan (tables.without tId)
  | recipient (known : ∃ creator, ⟨tId, creator⟩ ∈ tables.transfers) :
      CancelledRows tables cId tId plan { tables with
        transferClients := tables.transferClients.filter (·.clientId ≠ cId) }
  | stranger : CancelledRows tables cId tId [] tables

theorem cancelBody_rows (works : ∀ n, db.outcome n = none) (s : Server) (c : Slot) :
    (cancelBody s c db).1.Cancels (s.client c).id (s.client c).decryptBuf.packet.tId ∧
      CancelledRows db.tables (s.client c).id (s.client c).decryptBuf.packet.tId
        (cancelBody s c db).1 (cancelBody s c db).2.tables := by
  unfold cancelBody
  generalize (s.client c).decryptBuf.packet.tId = target
  dsimp only
  have read (cId : ClientId) : (dbGetTransfer db cId).2 = db.tick.2 := dbGetTransfer_snd db cId
  by_cases owner : target ∈ (dbGetTransfer db (s.client c).id).1
  · rw [if_pos owner, read]
    have statements : Database.Works db.tick.2 3 := fun k _ => works _
    have after := dbGetClientAll_snd db.tick.2 target
    refine ⟨toConnected_cancels fun _ _ => rfl, ?_⟩
    have tables : (cancelTransferPlan s c db.tick.2 target).2.tables = db.tables.without target := by
      have later : (dbGetClientAll db.tick.2 target).2.Works 2 := by
        rw [after]
        exact fun k _ => works _
      show (dbCleanupTransfer (dbGetClientAll db.tick.2 target).2 target).tables = _
      rw [later.cleanupTransfer, Database.after_tables, after]
      rfl
    rw [tables]
    exact .owner ⟨_, mem_dbGetTransfer owner⟩
  · rw [if_neg owner, read]
    have joined := fun info => @mem_dbGetCreator db.tick.2 (s.client c).id info
    have after := dbGetCreator_snd db.tick.2 (s.client c).id
    generalize dbGetCreator db.tick.2 (s.client c).id = cursor at joined after
    obtain ⟨infos, last⟩ := cursor
    dsimp only at joined after ⊢
    cases found : infos.find? (·.tId = target) with
    | none =>
      subst after
      exact ⟨fun _ member => (by cases member), .stranger⟩
    | some info =>
      have named : info.tId = target := by simpa using List.find?_some found
      subst named after
      refine ⟨toConnected_cancels fun x member => (by rw [List.mem_singleton.mp member]), ?_⟩
      have statements : Database.Works db.tick.2.tick.2 1 := fun k _ => works _
      dsimp only
      rw [statements.clientDelete, Database.after_tables]
      exact .recipient ⟨_, (joined info (List.mem_of_find?_eq_some found)).2⟩

theorem cancelPlan_rows (tidy : s.db.Tidy) (c : Slot) :
    (cancelPlan s c).1.Cancels (s.client c).id (s.client c).decryptBuf.packet.tId ∧
      CancelledRows s.db.tables (s.client c).id (s.client c).decryptBuf.packet.tId
        (cancelPlan s c).1 (cancelPlan s c).2.tables := by
  have begun := dbTransaction_begin s.db
  rw [if_pos ⟨tidy.works _, tidy.closed⟩] at begun
  unfold cancelPlan inTransaction
  rw [begun]
  simp only [if_true, dbTransaction_commit_tables]
  exact cancelBody_rows (by exact tidy.works) s c

end Plans

end Quickshare
