import Quickshare.Server.StepRules

/-! What the statements do to the rows. Apart from the inserts of a request,
rows are only deleted and answers only recorded, whichever statements fail. -/

namespace Quickshare

open Runs

variable {db next last : Database} {tId : TransferId} {cId : ClientId}

theorem lastRowid_none {ids : List Int64} (empty : lastRowid ids = none) : ids = [] := by
  cases ids with
  | nil => rfl
  | cons id rest =>
    rw [lastRowid] at empty
    split at empty <;> cases empty

theorem lastRowid_some {ids : List Int64} {last : Int64} (found : lastRowid ids = some last) :
    last ∈ ids ∧ ∀ id ∈ ids, id ≤ last := by
  induction ids generalizing last with
  | nil => cases found
  | cons id rest ih =>
    rw [lastRowid] at found
    cases later : lastRowid rest with
    | none =>
      rw [later] at found
      cases found
      simp [lastRowid_none later]
    | some largest =>
      rw [later] at found
      obtain ⟨member, greatest⟩ := ih later
      by_cases before : largest < id
      · obtain rfl : id = last := by simpa [before] using found
        refine ⟨List.mem_cons_self .., fun other held => ?_⟩
        rcases List.mem_cons.mp held with rfl | old
        · exact Int64.le_refl other
        · exact Int64.le_trans (greatest other old) (Int64.le_of_lt before)
      · obtain rfl : largest = last := by simpa [before] using found
        refine ⟨List.mem_cons_of_mem _ member, fun other held => ?_⟩
        rcases List.mem_cons.mp held with rfl | old
        · exact Int64.not_lt.mp before
        · exact greatest other old

/-- A new id is 1 in an empty table and otherwise one more than the largest. -/
theorem nextRowid_some {ids : List Int64} {next : Int64} (found : nextRowid ids = some next) :
    (ids = [] ∧ next = 1) ∨
      ∃ last ∈ ids, (∀ id ∈ ids, id ≤ last) ∧ next.toInt = last.toInt + 1 := by
  unfold nextRowid at found
  cases found' : lastRowid ids with
  | none =>
    rw [found'] at found
    cases found
    exact .inl ⟨lastRowid_none found', rfl⟩
  | some last =>
    obtain ⟨member, greatest⟩ := lastRowid_some found'
    simp only [found'] at found
    split at found
    · cases found
    · rename_i room
      cases found
      refine .inr ⟨last, member, greatest, ?_⟩
      have below := last.toInt_le
      have ne : last.toInt ≠ Int64.maxValue.toInt := fun same => room (Int64.toInt_inj.mp same)
      have above := last.le_toInt
      rw [Int64.toInt_maxValue] at below ne
      rw [Int64.toInt_add, Int.bmod_eq_of_le] <;> simp <;> omega

theorem dbTransaction_begin (db : Database) :
    dbTransaction db .begin = if db.outcome db.executed = none ∧ db.saved = none then
      (true, { db.tick.2 with saved := some db.tables }) else (false, db.tick.2) := by
  cases outcome : db.outcome db.executed <;> cases saved : db.saved <;>
    simp [dbTransaction, Database.tick, outcome, saved]

theorem dbTransaction_commit (db : Database) :
    dbTransaction db .commit = if db.outcome db.executed = none ∧ db.saved.isSome then
      (true, { db.tick.2 with saved := none }) else (false, db.tick.2) := by
  cases outcome : db.outcome db.executed <;> cases saved : db.saved <;>
    simp [dbTransaction, Database.tick, outcome, saved]

theorem dbTransaction_rollback (db : Database) :
    (dbTransaction db .rollback).2 = match db.saved with
      | some tables => { db.tick.2 with tables, saved := none }
      | none => db.tick.2 := by
  cases saved : db.saved <;> simp [dbTransaction, Database.tick, saved]

/-! Reading, and opening or committing a transaction, leave the rows alone -/

@[simp] theorem Database.tick_tables (db : Database) : db.tick.2.tables = db.tables := rfl

@[simp] theorem Database.tick_saved (db : Database) : db.tick.2.saved = db.saved := rfl

@[simp] theorem Database.tick_outcome (db : Database) : db.tick.2.outcome = db.outcome := rfl

theorem Database.select_snd {Row : Type} (db : Database) (rows : Tables → List Row) :
    (db.select rows).2 = db.tick.2 := by
  cases outcome : db.outcome db.executed <;> simp [select, tick, outcome]

@[simp] theorem dbGetSession_snd (db : Database) (name : List UInt8) :
    (dbGetSession db name).2 = db.tick.2 := by
  have read := db.select_snd fun tables => tables.sessions.filter (·.name = name)
  unfold dbGetSession
  split <;> (rename_i same; rwa [same] at read)

@[simp] theorem dbGetTransfer_snd (db : Database) (cId : ClientId) :
    (dbGetTransfer db cId).2 = db.tick.2 := by
  have read := db.select_snd fun tables => tables.transfers.filter (·.creatorId = cId)
  exact read

@[simp] theorem dbGetClientAll_snd (db : Database) (tId : TransferId) :
    (dbGetClientAll db tId).2 = db.tick.2 := by
  have read := db.select_snd fun tables =>
    tables.transferClients.filter fun row => row.transferId = tId ∧ row.accepted ≠ 0
  exact read

@[simp] theorem dbGetClientAllAccepted_snd (db : Database) (tId : TransferId) :
    (dbGetClientAllAccepted db tId).2 = db.tick.2 := by
  have read := db.select_snd fun tables =>
    tables.transferClients.filter fun row => row.transferId = tId ∧ row.accepted = 1
  exact read

@[simp] theorem dbGetCreator_snd (db : Database) (cId : ClientId) :
    (dbGetCreator db cId).2 = db.tick.2 := by
  have read := db.select_snd fun tables =>
    (tables.transferClients.filter (·.clientId = cId)).flatMap fun row =>
      tables.transfers.filter (·.transferId = row.transferId)
  exact read

@[simp] theorem dbGetCreatorByTid_snd (db : Database) (tId : TransferId) :
    (dbGetCreatorByTid db tId).2 = db.tick.2 := by
  have read := db.select_snd fun tables => tables.transfers.filter (·.transferId = tId)
  unfold dbGetCreatorByTid
  split <;> (rename_i same; rwa [same] at read)

@[simp] theorem dbTransaction_begin_tables (db : Database) :
    (dbTransaction db .begin).2.tables = db.tables := by
  rw [dbTransaction_begin]
  split <;> rfl

@[simp] theorem dbTransaction_commit_tables (db : Database) :
    (dbTransaction db .commit).2.tables = db.tables := by
  rw [dbTransaction_commit]
  split <;> rfl

/-- `b` is `a` with rows deleted and answers recorded. -/
structure Tables.Fades (a b : Tables) : Prop where
  transfers : ∀ row ∈ b.transfers, row ∈ a.transfers
  clients : ∀ row ∈ b.transferClients, ∃ old ∈ a.transferClients,
    old.transferId = row.transferId ∧ old.clientId = row.clientId

theorem Tables.Fades.refl (a : Tables) : a.Fades a :=
  ⟨fun _ member => member, fun row member => ⟨row, member, rfl, rfl⟩⟩

theorem Tables.Fades.trans {a b c : Tables} (first : a.Fades b) (second : b.Fades c) :
    a.Fades c where
  transfers := fun row member => first.transfers row (second.transfers row member)
  clients := fun row member => by
    obtain ⟨mid, held, transfer, client⟩ := second.clients row member
    obtain ⟨old, kept, transfer', client'⟩ := first.clients mid held
    exact ⟨old, kept, transfer'.trans transfer, client'.trans client⟩

theorem Tables.Fades.of_clients {a : Tables} {rows : List TransferClientRow}
    (fewer : ∀ row ∈ rows, row ∈ a.transferClients) :
    a.Fades { a with transferClients := rows } :=
  ⟨fun _ member => member, fun row member => ⟨row, fewer row member, rfl, rfl⟩⟩

/-- The rows at hand only fade, and statements keep their outcomes. -/
structure Database.Fades (db next : Database) : Prop where
  rows : db.tables.Fades next.tables
  outcome : next.outcome = db.outcome

namespace Database.Fades

theorem refl (db : Database) : db.Fades db := ⟨.refl _, rfl⟩

theorem trans (first : db.Fades next) (second : next.Fades last) : db.Fades last :=
  ⟨first.rows.trans second.rows, second.outcome.trans first.outcome⟩

theorem ticked (db : Database) : db.Fades db.tick.2 := ⟨.refl _, rfl⟩

theorem exec (change : Tables → Option Tables)
    (fades : ∀ tables, change db.tables = some tables → db.tables.Fades tables) :
    db.Fades (db.exec change).2 := by
  cases outcome : db.outcome db.executed with
  | some stop => simpa [Database.exec, tick, outcome] using ticked db
  | none =>
    cases changed : change db.tables with
    | none => simpa [Database.exec, tick, outcome, changed] using ticked db
    | some tables =>
      simp only [Database.exec, tick, outcome, changed]
      exact ⟨fades tables changed, rfl⟩

theorem cleanupTransfer (db : Database) (tId : TransferId) :
    db.Fades (dbCleanupTransfer db tId) := by
  have first : db.Fades (db.exec fun tables => some { tables with
      transferClients := tables.transferClients.filter (·.transferId ≠ tId) }).2 :=
    exec _ fun tables done => by
      cases done
      exact .of_clients fun row member => (List.mem_filter.mp member).1
  have second (next : Database) : next.Fades (next.exec fun tables => some { tables with
      transfers := tables.transfers.filter (·.transferId ≠ tId) }).2 :=
    exec _ fun tables done => by
      cases done
      exact ⟨fun row member => (List.mem_filter.mp member).1, (Tables.Fades.refl _).clients⟩
  exact first.trans (second _)

theorem clientDelete (db : Database) (cId : ClientId) : db.Fades (dbClientDelete db cId) :=
  exec _ fun tables done => by
    cases done
    exact .of_clients fun row member => (List.mem_filter.mp member).1

theorem clientAccept (db : Database) (cId : ClientId) (tId : TransferId) (accept : Bool) :
    db.Fades (dbClientAccept db cId tId accept) :=
  exec _ fun tables done => by
    cases done
    refine ⟨fun _ member => member, fun row member => ?_⟩
    obtain ⟨old, held, rfl⟩ := List.mem_map.mp member
    refine ⟨old, held, ?_⟩
    split <;> exact ⟨rfl, rfl⟩

theorem begin (db : Database) : db.Fades (dbTransaction db .begin).2 := by
  rw [dbTransaction_begin]
  split
  · exact ⟨.refl _, rfl⟩
  · exact ticked db

theorem commit (db : Database) : db.Fades (dbTransaction db .commit).2 := by
  rw [dbTransaction_commit]
  split
  · exact ⟨.refl _, rfl⟩
  · exact ticked db

end Database.Fades

/-- Sessions apart the databases agree. -/
structure Database.SameTransfers (db next : Database) : Prop where
  transfers : next.tables.transfers = db.tables.transfers
  clients : next.tables.transferClients = db.tables.transferClients
  saved : next.saved = db.saved
  outcome : next.outcome = db.outcome

theorem Database.SameTransfers.exec (change : Tables → Option Tables)
    (keep : ∀ tables, change db.tables = some tables →
      tables.transfers = db.tables.transfers ∧ tables.transferClients = db.tables.transferClients) :
    db.SameTransfers (db.exec change).2 := by
  cases outcome : db.outcome db.executed with
  | some stop =>
    simp only [Database.exec, tick, outcome]
    exact ⟨rfl, rfl, rfl, rfl⟩
  | none =>
    cases changed : change db.tables with
    | none =>
      simp only [Database.exec, tick, outcome, changed]
      exact ⟨rfl, rfl, rfl, rfl⟩
    | some tables =>
      simp only [Database.exec, tick, outcome, changed]
      exact ⟨(keep tables changed).1, (keep tables changed).2, rfl, rfl⟩

theorem dbCreateSession_transfers (db : Database) (name : List UInt8) :
    db.SameTransfers (dbCreateSession db name).2 := by
  unfold dbCreateSession
  split
  · exact .exec _ nofun
  · rename_i id _
    have added : db.SameTransfers _ := .exec (fun tables =>
        if name ∈ tables.sessions.map SessionRow.name then none
        else some { tables with sessions := tables.sessions ++ [⟨name, id⟩] }) fun tables done => by
      split at done
      · cases done
      · cases done
        exact ⟨rfl, rfl⟩
    split <;> (rename_i same; rw [same] at added; exact added)

/-! The databases the handlers leave -/

/-- A relation kept by every statement but the inserts and a rollback. -/
structure Database.Rule (R : Database → Database → Prop) : Prop where
  refl : ∀ db, R db db
  trans : ∀ first second third, R first second → R second third → R first third
  ticked : ∀ db, R db db.tick.2
  cleanupTransfer : ∀ db tId, R db (dbCleanupTransfer db tId)
  clientDelete : ∀ db cId, R db (dbClientDelete db cId)
  clientAccept : ∀ db cId tId accept, R db (dbClientAccept db cId tId accept)
  begin : ∀ db, R db (dbTransaction db .begin).2
  commit : ∀ db, R db (dbTransaction db .commit).2

/-- The rule for a relation that only the rows at hand and the outcomes matter to. -/
structure Database.RowRule (R : Database → Database → Prop) : Prop extends Database.Rule R where
  same : ∀ db next, next.tables.transfers = db.tables.transfers →
    next.tables.transferClients = db.tables.transferClients → next.outcome = db.outcome → R db next

theorem fades_rule : Database.RowRule Database.Fades where
  refl := .refl
  trans := fun _ _ _ => .trans
  ticked := .ticked
  cleanupTransfer := .cleanupTransfer
  clientDelete := .clientDelete
  clientAccept := .clientAccept
  begin := .begin
  commit := .commit
  same := fun _ _ transfers clients outcome => ⟨⟨fun _ member => transfers ▸ member,
    fun row member => ⟨row, clients ▸ member, rfl, rfl⟩⟩, outcome⟩

/-- Which client each row is of, and for which transfer. -/
def Tables.keys (tables : Tables) : List (TransferId × ClientId) :=
  tables.transferClients.map fun row => (row.transferId, row.clientId)

/-- Rows are only deleted or answered, and none twice. -/
structure Database.Thins (db next : Database) : Prop where
  transfers : next.tables.transfers.Sublist db.tables.transfers
  clients : next.tables.keys.Sublist db.tables.keys

theorem Database.Thins.of_tables (same : next.tables = db.tables) : db.Thins next := by
  constructor <;> rw [same]

theorem Database.Thins.exec (change : Tables → Option Tables)
    (thins : ∀ tables, change db.tables = some tables →
      tables.transfers.Sublist db.tables.transfers ∧ tables.keys.Sublist db.tables.keys) :
    db.Thins (db.exec change).2 := by
  cases outcome : db.outcome db.executed with
  | some stop => exact .of_tables (by simp only [Database.exec, tick, outcome])
  | none =>
    cases changed : change db.tables with
    | none => exact .of_tables (by simp only [Database.exec, tick, outcome, changed])
    | some tables =>
      simp only [Database.exec, tick, outcome, changed]
      exact ⟨(thins tables changed).1, (thins tables changed).2⟩

theorem Tables.filter_keys (tables : Tables) (keep : TransferClientRow → Bool) :
    (Tables.keys { tables with transferClients := tables.transferClients.filter keep }).Sublist
      tables.keys :=
  List.filter_sublist.map _

theorem thins_rule : Database.RowRule Database.Thins where
  refl := fun _ => .of_tables rfl
  trans := fun _ _ _ first second =>
    ⟨second.transfers.trans first.transfers, second.clients.trans first.clients⟩
  ticked := fun _ => .of_tables rfl
  cleanupTransfer := fun db tId => by
    have first : db.Thins (db.exec fun tables => some { tables with
        transferClients := tables.transferClients.filter (·.transferId ≠ tId) }).2 :=
      .exec _ fun tables done => by
        cases done
        exact ⟨List.Sublist.refl _, Tables.filter_keys _ _⟩
    have second (db : Database) : db.Thins (db.exec fun tables => some { tables with
        transfers := tables.transfers.filter (·.transferId ≠ tId) }).2 :=
      .exec _ fun tables done => by
        cases done
        exact ⟨List.filter_sublist, List.Sublist.refl _⟩
    have next := second (db.exec fun tables => some { tables with
      transferClients := tables.transferClients.filter (·.transferId ≠ tId) }).2
    exact ⟨next.transfers.trans first.transfers, next.clients.trans first.clients⟩
  clientDelete := fun db cId => .exec _ fun tables done => by
    cases done
    exact ⟨List.Sublist.refl _, Tables.filter_keys _ _⟩
  clientAccept := fun db cId tId accept => .exec _ fun tables done => by
    cases done
    have same (tables : Tables) : Tables.keys { tables with
        transferClients := tables.transferClients.map fun row =>
          if row.clientId = cId ∧ row.transferId = tId
          then { row with accepted := if accept then 1 else 0 } else row } = tables.keys := by
      simp only [Tables.keys, List.map_map]
      refine List.map_congr_left fun row _ => ?_
      dsimp only [Function.comp_apply]
      split <;> rfl
    rw [same]
    exact ⟨List.Sublist.refl _, List.Sublist.refl _⟩
  begin := fun db => .of_tables (dbTransaction_begin_tables db)
  commit := fun db => .of_tables (dbTransaction_commit_tables db)
  same := fun db next transfers clients _ => by
    constructor
    · rw [transfers]
    · rw [Tables.keys, Tables.keys, clients]

namespace Database.Rule

variable {R : Database → Database → Prop}

theorem of_ticked (rule : Database.Rule R) (same : next = db.tick.2) : R db next :=
  same ▸ rule.ticked db

theorem relayPlan (rule : Database.Rule R) (s : Server) (p : Packet) (db : Database)
    (tId : TransferId) : R db (Quickshare.relayPlan s p db tId).2 :=
  rule.of_ticked (dbGetClientAllAccepted_snd db tId)

theorem dataPlan (rule : Database.Rule R) (s : Server) (c : Slot) :
    R s.db (Quickshare.dataPlan s c).2 :=
  rule.relayPlan s _ s.db _

theorem completePlan (rule : Database.Rule R) (s : Server) (c : Slot) :
    R s.db (Quickshare.completePlan s c).2 := by
  have listed : R s.db _ := rule.of_ticked (dbGetTransfer_snd s.db (s.client c).id)
  unfold Quickshare.completePlan
  dsimp only
  split
  · exact rule.trans _ _ _ (rule.trans _ _ _ listed (rule.relayPlan s _ _ _))
      (rule.cleanupTransfer _ _)
  · exact listed

theorem cancelTransferPlan (rule : Database.Rule R) (s : Server) (c : Slot) (db : Database)
    (tId : TransferId) : R db (Quickshare.cancelTransferPlan s c db tId).2 :=
  rule.trans _ _ _ (rule.of_ticked (dbGetClientAll_snd db tId)) (rule.cleanupTransfer _ _)

theorem inTransaction (rule : Database.Rule R) {body : Database → Plan × Database}
    (keeps : ∀ db : Database, R db (body db).2) (db : Database) :
    R db (Quickshare.inTransaction body db).2 := by
  unfold Quickshare.inTransaction
  dsimp only
  split
  · have held := rule.trans _ _ _ (rule.begin db) (keeps _)
    exact rule.trans _ _ _ held (rule.commit _)
  · exact rule.begin db

theorem cancelPlan (rule : Database.Rule R) (s : Server) (c : Slot) :
    R s.db (Quickshare.cancelPlan s c).2 := by
  refine rule.inTransaction (fun db => ?_) s.db
  have listed : R db _ := rule.of_ticked (dbGetTransfer_snd db (s.client c).id)
  have joined := rule.trans _ _ _ listed (rule.of_ticked (dbGetCreator_snd _ (s.client c).id))
  unfold cancelBody
  dsimp only
  split
  · exact rule.trans _ _ _ listed (rule.cancelTransferPlan s c _ _)
  · split
    · exact joined
    · exact rule.trans _ _ _ joined (rule.clientDelete _ _)

theorem foldPlan (rule : Database.Rule R) {body : Database → TransferId → Plan × Database}
    (keeps : ∀ (db : Database) tId, R db (body db tId).2) (db : Database)
    (ids : List TransferId) : R db (Quickshare.foldPlan body db ids).2 := by
  induction ids generalizing db with
  | nil => exact rule.refl db
  | cons tId rest ih => exact rule.trans _ _ _ (keeps db tId) (ih _)

theorem disconnectPlan (rule : Database.Rule R) (s : Server) (c : Slot) :
    R s.db (Quickshare.disconnectPlan s c).2 := by
  refine rule.inTransaction (fun db => ?_) s.db
  have listed : R db _ := rule.of_ticked (dbGetTransfer_snd db (s.client c).id)
  have cancelled := rule.trans _ _ _ listed (rule.foldPlan (rule.cancelTransferPlan s c) _
    (dbGetTransfer db (s.client c).id).1)
  have joined := rule.trans _ _ _ cancelled
    (rule.of_ticked (dbGetCreator_snd _ (s.client c).id))
  exact rule.trans _ _ _ joined (rule.clientDelete _ _)

theorem leavingPlan (rule : Database.Rule R) (s : Server) (c : Slot) :
    R s.db (Quickshare.leavingPlan s c).2 := by
  unfold Quickshare.leavingPlan
  split
  · exact rule.disconnectPlan s c
  · exact rule.refl s.db

theorem replyCreator (rule : Database.Rule R) (s : Server) (c : Slot) :
    R s.db (Quickshare.replyCreator s c).2 :=
  rule.trans _ _ _ (rule.clientAccept _ _ _ _) (rule.of_ticked (dbGetCreatorByTid_snd _ _))

end Database.Rule

section Plans

theorem introduced_transfers (s : Server) (c : Slot) : s.db.SameTransfers (s.introduced c).2 := by
  unfold Server.introduced
  dsimp only
  split
  · rw [dbGetSession_snd]
    exact ⟨rfl, rfl, rfl, rfl⟩
  · exact dbCreateSession_transfers _ _

end Plans

/-! What the cursors return -/

section Cursors

variable {id : ClientId} {info : TransferInfo}

namespace Database

theorem select_sublist {Row : Type} (db : Database) (rows : Tables → List Row) :
    (db.select rows).1.Sublist (rows db.tables) := by
  cases outcome : db.outcome db.executed with
  | none => simp [select, tick, outcome]
  | some stop =>
    simp only [select, tick, outcome]
    exact List.take_sublist stop _

theorem mem_select {Row : Type} {row : Row} (db : Database) (rows : Tables → List Row)
    (member : row ∈ (db.select rows).1) : row ∈ rows db.tables :=
  (db.select_sublist rows).subset member

end Database

theorem mem_dbGetTransfer (member : tId ∈ (dbGetTransfer db cId).1) :
    ⟨tId, cId⟩ ∈ db.tables.transfers := by
  obtain ⟨row, read, rfl⟩ := List.mem_map.mp ((List.takeWhile_sublist _).subset member)
  have selected := db.mem_select (fun tables => tables.transfers.filter (·.creatorId = cId)) read
  obtain ⟨held, creator⟩ := List.mem_filter.mp selected
  obtain ⟨transferId, creatorId⟩ := row
  obtain rfl : creatorId = cId := by simpa using creator
  exact held

/-- A cursor over a transfer's clients returns clients that have a row for it. -/
theorem mem_dbGetClientAll (member : id ∈ (dbGetClientAll db tId).1) :
    ∃ row ∈ db.tables.transferClients, row.transferId = tId ∧ row.clientId = id := by
  obtain ⟨row, read, rfl⟩ := List.mem_map.mp ((List.takeWhile_sublist _).subset member)
  have selected := db.mem_select (fun tables => tables.transferClients.filter
    fun row => row.transferId = tId ∧ row.accepted ≠ 0) read
  obtain ⟨held, found⟩ := List.mem_filter.mp selected
  exact ⟨row, held, (of_decide_eq_true found).1, rfl⟩

theorem mem_dbGetClientAllAccepted (member : id ∈ (dbGetClientAllAccepted db tId).1) :
    ∃ row ∈ db.tables.transferClients,
      row.transferId = tId ∧ row.accepted = 1 ∧ row.clientId = id := by
  obtain ⟨row, read, rfl⟩ := List.mem_map.mp ((List.takeWhile_sublist _).subset member)
  have selected := db.mem_select (fun tables => tables.transferClients.filter
    fun row => row.transferId = tId ∧ row.accepted = 1) read
  obtain ⟨held, found⟩ := List.mem_filter.mp selected
  obtain ⟨here, accepted⟩ := of_decide_eq_true found
  exact ⟨row, held, here, accepted, rfl⟩

/-- `db_get_creator` returns the creators of transfers the client has a row for. -/
theorem mem_dbGetCreator (member : info ∈ (dbGetCreator db cId).1) :
    (∃ row ∈ db.tables.transferClients, row.transferId = info.tId ∧ row.clientId = cId) ∧
      ⟨info.tId, info.creator⟩ ∈ db.tables.transfers := by
  obtain ⟨transfer, read, rfl⟩ := List.mem_map.mp ((List.takeWhile_sublist _).subset member)
  have selected := db.mem_select (fun tables =>
    (tables.transferClients.filter (·.clientId = cId)).flatMap fun row =>
      tables.transfers.filter (·.transferId = row.transferId)) read
  obtain ⟨row, listed, joined⟩ := List.mem_flatMap.mp selected
  obtain ⟨held, client⟩ := List.mem_filter.mp listed
  obtain ⟨created, same⟩ := List.mem_filter.mp joined
  have joins : transfer.transferId = row.transferId := by simpa using same
  exact ⟨⟨row, held, joins.symm, by simpa using client⟩, created⟩

theorem dbGetCreatorByTid_row (found : (dbGetCreatorByTid db tId).1 ≠ 0) :
    ⟨tId, (dbGetCreatorByTid db tId).1⟩ ∈ db.tables.transfers := by
  unfold dbGetCreatorByTid at found ⊢
  split at found
  · rename_i row rest next same
    have read : row ∈ (db.select fun tables => tables.transfers.filter (·.transferId = tId)).1 := by
      rw [same]
      exact List.mem_cons_self ..
    have selected := db.mem_select _ read
    obtain ⟨held, here⟩ := List.mem_filter.mp selected
    obtain ⟨transferId, creatorId⟩ := row
    obtain rfl : transferId = tId := by simpa using here
    exact held
  · exact absurd rfl found

end Cursors

/-! A request -/

namespace Database

@[simp] theorem exec_saved (db : Database) (change : Tables → Option Tables) :
    (db.exec change).2.saved = db.saved := by
  cases outcome : db.outcome db.executed <;> cases changed : change db.tables <;>
    simp [exec, tick, outcome, changed]

@[simp] theorem exec_outcome (db : Database) (change : Tables → Option Tables) :
    (db.exec change).2.outcome = db.outcome := by
  cases outcome : db.outcome db.executed <;> cases changed : change db.tables <;>
    simp [exec, tick, outcome, changed]

theorem exec_tables (db : Database) (change : Tables → Option Tables)
    (done : (db.exec change).1 = true) : change db.tables = some (db.exec change).2.tables := by
  cases outcome : db.outcome db.executed <;> cases changed : change db.tables <;>
    simp [exec, tick, outcome, changed] at done ⊢

end Database

theorem dbCreateClient_tables (done : (dbCreateClient db tId cId).1 = true) :
    (dbCreateClient db tId cId).2.tables = { db.tables with
      transferClients := db.tables.transferClients ++ [⟨tId, cId, -1⟩] } :=
  (Option.some.inj (db.exec_tables (fun tables => some { tables with
    transferClients := tables.transferClients ++ [⟨tId, cId, -1⟩] }) done)).symm

/-- `next` continues the transaction of `db`. -/
structure Database.Continues (db next : Database) : Prop where
  saved : next.saved = db.saved
  outcome : next.outcome = db.outcome

theorem Database.Continues.exec (db : Database) (change : Tables → Option Tables) :
    db.Continues (db.exec change).2 :=
  ⟨db.exec_saved change, db.exec_outcome change⟩

theorem Database.Continues.trans (first : db.Continues next) (second : next.Continues last) :
    db.Continues last :=
  ⟨second.saved.trans first.saved, second.outcome.trans first.outcome⟩

theorem checkRecipients_continues (tId : TransferId) (clients : ClientList) (client : Client) (p : Packet)
    (indices : List Nat) (db : Database) :
    db.Continues (checkRecipients clients client tId p db indices).2 := by
  induction indices generalizing db with
  | nil => exact ⟨rfl, rfl⟩
  | cons i rest ih =>
    rw [checkRecipients]
    split
    · exact ⟨rfl, rfl⟩
    · split
      · exact ⟨rfl, rfl⟩
      · rename_i r _
        have inserted : db.Continues (dbCreateClient db tId (clients.list r).id).2 := .exec db _
        split
        · exact ⟨rfl, rfl⟩
        · split <;> rename_i same <;> rw [same] at inserted
          · exact inserted
          · exact inserted.trans (ih _)

/-- A check that passes leaves one unanswered row for each recipient named. -/
theorem checkRecipients_rows {clients : ClientList} {client : Client} {p : Packet}
    {indices : List Nat} (passed : (checkRecipients clients client tId p db indices).1 = true) :
    (checkRecipients clients client tId p db indices).2.tables = { db.tables with
      transferClients := db.tables.transferClients ++
        (requestIds p indices).map (⟨tId, ·, -1⟩) } := by
  induction indices generalizing db with
  | nil => simp [checkRecipients, requestIds]
  | cons i rest ih =>
    rw [checkRecipients] at passed ⊢
    by_cases zero : p.hdrTo i = 0
    · simp [requestIds, zero]
    · have ids : requestIds p (i :: rest) = p.hdrTo i :: requestIds p rest := by
        simp [requestIds, zero]
      rw [ids]
      rw [if_neg zero] at passed ⊢
      cases found : clientFindById clients (p.hdrTo i) with
      | none => simp [found] at passed
      | some r =>
        simp only [found] at passed ⊢
        by_cases session : (clients.list r).sessionId ≠ client.sessionId
        · simp [session] at passed
        · rw [if_neg session] at passed ⊢
          have id : (clients.list r).id = p.hdrTo i := (clientFindById_some found).2
          rw [id] at passed ⊢
          have inserted (done : (dbCreateClient db tId (p.hdrTo i)).1 = true) :=
            dbCreateClient_tables done
          generalize dbCreateClient db tId (p.hdrTo i) = result at passed inserted ⊢
          obtain ⟨done, next⟩ := result
          cases done with
          | false => cases passed
          | true =>
            have tables := inserted rfl
            dsimp only at tables
            simp [ih passed, tables]

/-- A request of `cId` to `recipients` becomes the transfer `tId`. -/
structure Database.Grants (db : Database) (cId : ClientId) (recipients : List ClientId)
    (tId : TransferId) (next : Database) : Prop where
  rowid : nextRowid (db.tables.transfers.map TransferRow.transferId) = some tId
  nonzero : tId ≠ 0
  transfers : next.tables.transfers = db.tables.transfers ++ [⟨tId, cId⟩]
  clients : next.tables.transferClients =
    db.tables.transferClients ++ recipients.map (⟨tId, ·, -1⟩)
  saved : next.saved = none
  outcome : next.outcome = db.outcome

section Transfer

variable {s : Server} {c : Slot}

/-- The packet `c` has sent is a request that `packet_transfer` commits. -/
def Server.granted (s : Server) (c : Slot) : Prop :=
  (s.client c).decryptBuf.packet.type? = some .transferRequest ∧ s.begun.1 = true ∧
    (s.recorded c).1 = true

instance (s : Server) (c : Slot) : Decidable (s.granted c) := by
  unfold Server.granted
  infer_instance

/-- The recipients named by the request `c` has sent. -/
def Server.requested (s : Server) (c : Slot) : List ClientId :=
  requestIds (s.client c).decryptBuf.packet (List.range transferClientsMax)

theorem dbCreateTransfer_continues (db : Database) (cId : ClientId) :
    db.Continues (dbCreateTransfer db cId).2 := by
  unfold dbCreateTransfer
  split
  · exact .exec db _
  · rename_i id _
    have inserted : db.Continues _ := .exec db fun tables =>
      some { tables with transfers := tables.transfers ++ [⟨id, cId⟩] }
    split <;> (rename_i same; rw [same] at inserted; exact inserted)

/-- An id other than 0 is a new row's. -/
theorem dbCreateTransfer_rows (created : (dbCreateTransfer db cId).1 ≠ 0) :
    nextRowid (db.tables.transfers.map TransferRow.transferId) = some (dbCreateTransfer db cId).1 ∧
      (dbCreateTransfer db cId).2.tables = { db.tables with
        transfers := db.tables.transfers ++ [⟨(dbCreateTransfer db cId).1, cId⟩] } := by
  unfold dbCreateTransfer at created ⊢
  split at created
  · exact absurd rfl created
  · rename_i id next
    have inserted := db.exec_tables fun tables =>
      some { tables with transfers := tables.transfers ++ [⟨id, cId⟩] }
    simp only [next]
    split at created
    · rename_i same
      rw [same] at inserted
      exact ⟨rfl, (Option.some.inj (inserted rfl)).symm⟩
    · exact absurd rfl created

theorem begun_tables (begun : s.begun.1 = true) :
    s.begun.2.tables = s.db.tables ∧ s.begun.2.saved = some s.db.tables ∧
      s.begun.2.outcome = s.db.outcome := by
  unfold Server.begun at begun ⊢
  rw [dbTransaction_begin] at begun ⊢
  split at begun
  · rename_i started
    rw [if_pos started]
    exact ⟨rfl, rfl, rfl⟩
  · cases begun

/-- A transfer that is not recorded leaves its transaction open. -/
theorem recordTransfer_continues {clients : ClientList} {client : Client} {p : Packet}
    (refused : (recordTransfer clients client db p).1 = false) :
    db.Continues (recordTransfer clients client db p).2.2 := by
  have created := dbCreateTransfer_continues db client.id
  have checked := created.trans (checkRecipients_continues (dbCreateTransfer db client.id).1 clients
    client p (List.range transferClientsMax) (dbCreateTransfer db client.id).2)
  unfold recordTransfer at refused ⊢
  dsimp only at refused ⊢
  split at refused
  · rename_i zero
    rw [if_pos zero]
    exact created
  · rename_i valid
    rw [if_neg valid]
    split at refused <;> rename_i same <;> rw [same] at checked
    · exact checked
    · dsimp only at refused checked ⊢
      rw [dbTransaction_commit] at refused ⊢
      split at refused
      · cases refused
      · rename_i failed
        rw [if_neg failed]
        exact checked.trans ⟨rfl, rfl⟩

theorem recordTransfer_rows {clients : ClientList} {client : Client} {p : Packet}
    (recorded : (recordTransfer clients client db p).1 = true) :
    db.Grants client.id (requestIds p (List.range transferClientsMax))
      (recordTransfer clients client db p).2.1 (recordTransfer clients client db p).2.2 := by
  unfold recordTransfer at recorded ⊢
  dsimp only at recorded ⊢
  split at recorded
  · cases recorded
  · rename_i valid
    obtain ⟨rowid, tables⟩ := dbCreateTransfer_rows valid
    have checked (passed : (checkRecipients clients client (dbCreateTransfer db client.id).1 p
      (dbCreateTransfer db client.id).2 (List.range transferClientsMax)).1 = true) :=
        checkRecipients_rows passed
    have continued := (dbCreateTransfer_continues db client.id).trans
      (checkRecipients_continues (dbCreateTransfer db client.id).1 clients client p
        (List.range transferClientsMax) (dbCreateTransfer db client.id).2)
    rw [if_neg valid]
    split at recorded <;> rename_i same <;> rw [same] at checked continued
    · cases recorded
    · have rows := checked rfl
      rw [tables] at rows
      dsimp only at recorded rows ⊢
      rw [dbTransaction_commit] at recorded ⊢
      split at recorded
      · rename_i committed
        rw [if_pos committed]
        exact ⟨rowid, valid, congrArg Tables.transfers rows,
          congrArg Tables.transferClients rows, rfl, continued.outcome⟩
      · cases recorded

theorem recorded_grants (begun : s.begun.1 = true) (recorded : (s.recorded c).1 = true) :
    s.db.Grants (s.client c).id (s.requested c) (s.recorded c).2.1 (s.recorded c).2.2 := by
  obtain ⟨tables, -, outcome⟩ := begun_tables begun
  have rows := recordTransfer_rows recorded
  obtain ⟨rowid, nonzero, transfers, clients, saved, kept⟩ := rows
  rw [tables] at rowid transfers clients
  exact ⟨rowid, nonzero, transfers, clients, saved, kept.trans outcome⟩

/-- A request that is not recorded leaves no trace in the tables. -/
theorem refused_tables (begun : s.begun.1 = true) (refused : (s.recorded c).1 = false) :
    (dbTransaction (s.recorded c).2.2 .rollback).2.tables = s.db.tables ∧
      (dbTransaction (s.recorded c).2.2 .rollback).2.saved = none ∧
      (dbTransaction (s.recorded c).2.2 .rollback).2.outcome = s.db.outcome := by
  obtain ⟨-, saved, outcome⟩ := begun_tables begun
  have continued := recordTransfer_continues refused
  rw [dbTransaction_rollback, Server.recorded, continued.saved, saved]
  exact ⟨rfl, rfl, continued.outcome.trans outcome⟩

end Transfer

/-! What a packet and a disconnect do to the rows -/

section Run

variable {s t : Server} {c : Slot} {plan : Plan} {r : Run Server}

/-- No transfer is committed and the database stays in the relation. -/
def Keeps (R : Database → Database → Prop) (s : Server) (r : Run Server) : Prop :=
  Ends (fun t => t.committed = s.committed ∧ R s.db t.db)
    (fun failed => failed.2.committed = s.committed) r

/-- No transfer is committed and the rows only fade. -/
def OnlyFades (s : Server) (r : Run Server) : Prop :=
  Ends (fun t => t.committed = s.committed ∧ s.db.Fades t.db)
    (fun failed => failed.2.committed = s.committed) r

/-- The id of the transfer that the packet of `c` commits, if it does. -/
def Server.created (s : Server) (c : Slot) : List TransferId :=
  if s.granted c then [(s.recorded c).2.1] else []

section Keeps

variable {R : Database → Database → Prop}

theorem Sends.keeps (sends : Sends s plan db r) (kept : R s.db db) : Keeps R s r := by
  have committed := sends.committed
  cases r with
  | ok t => exact ⟨committed, by rw [sends.db_ok]; exact kept⟩
  | error failed => exact committed

theorem Keeps.after (rule : Database.RowRule R) (committed : t.committed = s.committed)
    (kept : R s.db t.db) (later : Keeps R t r) : Keeps R s r :=
  Ends.mono later (fun _ _ ends => ⟨ends.1.trans committed, rule.trans _ _ _ kept ends.2⟩)
    fun _ same => same.trans committed

theorem Keeps.bind (rule : Database.RowRule R) {next : Server → Run Server} (first : Keeps R s r)
    (later : ∀ t, Keeps R t (next t)) : Keeps R s (r.bind next) :=
  Ends.bind first fun t ends => (later t).after rule ends.1 ends.2

theorem Keeps.idle (rule : Database.RowRule R) (s : Server) : Keeps R s (.ok s) :=
  ⟨rfl, rule.refl s.db⟩

theorem packetIntro_keeps (rule : Database.RowRule R) (s : Server) (c : Slot) :
    Keeps R s (packetIntro s c) := by
  rw [packetIntro_eq]
  by_cases abnormal : (s.client c).state = .complete ∨
      (s.client c).decryptBuf.packet.introSession > 1
  · rw [if_pos abnormal]
    exact (serverResponse_sends s c .serverDeny).keeps (rule.refl s.db)
  · rw [if_neg abnormal]
    have same := introduced_transfers s c
    have opened := rule.same s.db (s.introduced c).2 same.transfers same.clients same.outcome
    generalize s.introduced c = session at opened ⊢
    generalize (terminateIntro (s.client c).decryptBuf.packet).introName = name
    let s' : Server := { s.terminated c with db := session.2 }
    have answered (type : PacketType) : Keeps R s (serverResponse s' c type) :=
      Keeps.after rule (t := s') rfl opened
        ((serverResponse_sends s' c type).keeps (rule.refl session.2))
    dsimp only
    split
    · exact answered .serverDeny
    · refine (answered .serverOk).bind rule fun t => ?_
      exact ((sendSessionUsers_sends (t.completed c session.1 name) c).keeps
        (rule.refl _)).after rule rfl (rule.refl t.db)

/-- A request that is not granted leaves the rows as they are. -/
theorem packetTransfer_keeps (rule : Database.RowRule R)
    (request : (s.client c).decryptBuf.packet.type? = some .transferRequest)
    (other : ¬ s.granted c) : Keeps R s (packetTransfer s c) := by
  by_cases begun : s.begun.1 = true
  · have refused : (s.recorded c).1 = false := by
      simpa using fun recorded => other ⟨request, begun, recorded⟩
    obtain ⟨r, sends, same⟩ := packetTransfer_refused begun refused
    obtain ⟨tables, -, outcome⟩ := refused_tables begun refused
    rw [same]
    refine (sends.keeps (rule.same _ _ (congrArg Tables.transfers tables)
      (congrArg Tables.transferClients tables) outcome)).bind rule fun t => ?_
    generalize (debugTransfer (s.client c).decryptBuf.packet).inside = inside
    cases inside
    · rfl
    · exact .idle rule t
  · have busy : s.begun.1 = false := by simpa using begun
    exact (packetTransfer_busy busy).keeps (rule.begin s.db)

theorem packetReply_keeps (rule : Database.RowRule R) (s : Server) (c : Slot) :
    Keeps R s (packetReply s c) := by
  by_cases gone : s.creatorGone c
  · rw [packetReply_gone gone]
    rfl
  · exact (packetReply_sends gone).keeps (rule.replyCreator s c)

/-- Any packet but a granted request keeps the relation. -/
theorem analizePacket_keeps (rule : Database.RowRule R) (other : ¬ s.granted c) :
    Keeps R s (analizePacket s c) := by
  unfold analizePacket
  cases type : (s.client c).decryptBuf.packet.type? with
  | none => exact .idle rule s
  | some kind =>
    cases kind with
    | transferRequest => exact packetTransfer_keeps rule type other
    | clientIntro => exact packetIntro_keeps rule s c
    | transferReply => exact packetReply_keeps rule s c
    | transferData => exact (packetData_sends s c).keeps (rule.dataPlan s c)
    | transferComplete => exact (packetComplete_sends s c).keeps (rule.completePlan s c)
    | transferCancel => exact (packetCancel_sends s c).keeps (rule.cancelPlan s c)
    | _ => exact .idle rule s

theorem closeClient_keeps (rule : Database.RowRule R) (s : Server) (fd : Int) (deleted : Bool) :
    Keeps R s (closeClient s fd deleted) := by
  rw [closeClient_eq]
  by_cases known : deleted = true ∧ fd ∈ s.epoll
  · rw [if_pos known]
    dsimp only
    cases clientFind s.clients fd with
    | none => exact .idle rule _
    | some c =>
      have left : Keeps R s (leaveSession { s with epoll := s.epoll.erase fd } c) :=
        ((leaveSession_sends { s with epoll := s.epoll.erase fd } c).keeps
          (rule.leavingPlan _ c)).after rule rfl (rule.refl s.db)
      exact left.bind rule fun t => .idle rule t
  · rw [if_neg known]
    exact .idle rule s

end Keeps

/-- The rows after a packet of `c`. -/
structure RowsAfter (s : Server) (c : Slot) (t : Server) : Prop where
  committed : t.committed = s.committed ++ s.created c
  granted : s.granted c →
    s.db.Grants (s.client c).id (s.requested c) (s.recorded c).2.1 t.db
  fades : ¬ s.granted c → s.db.Fades t.db

/-- Where a packet of `c` leaves the rows, whether it is handled or the server stops. -/
def TreatsRows (s : Server) (c : Slot) (r : Run Server) : Prop :=
  Ends (RowsAfter s c) (fun failed => failed.2.committed = s.committed ++ s.created c) r

theorem OnlyFades.treatsRows (fades : OnlyFades s r) (other : ¬ s.granted c) :
    TreatsRows s c r := by
  have none : s.committed ++ s.created c = s.committed := by simp [Server.created, other]
  refine Ends.mono fades (fun t _ ends => ⟨?_, fun granted => absurd granted other,
    fun _ => ends.2⟩) fun failed kept => ?_
  · rw [none, ends.1]
  · rw [none, kept]

theorem packetTransfer_grants (granted : s.granted c) : TreatsRows s c (packetTransfer s c) := by
  have ⟨_, begun, recorded⟩ := granted
  have grants := recorded_grants begun recorded
  have sends := packetTransfer_granted begun recorded
  have committed : (Run.state (packetTransfer s c)).committed = s.committed ++ s.created c := by
    rw [sends.committed, Server.created, if_pos granted]
  cases ended : packetTransfer s c with
  | ok t =>
    rw [ended] at sends committed
    refine ⟨committed, fun _ => ?_, fun other => absurd granted other⟩
    rw [sends.db_ok]
    exact grants
  | error failed =>
    rw [ended] at committed
    exact committed

theorem analizePacket_rows (s : Server) (c : Slot) : TreatsRows s c (analizePacket s c) := by
  by_cases granted : s.granted c
  · have handled : analizePacket s c = packetTransfer s c := by
      simp only [analizePacket, granted.1]
    rw [handled]
    exact packetTransfer_grants granted
  · have kept : OnlyFades s (analizePacket s c) := analizePacket_keeps fades_rule granted
    exact kept.treatsRows granted

theorem closeClient_fades (s : Server) (fd : Int) (deleted : Bool) :
    OnlyFades s (closeClient s fd deleted) :=
  closeClient_keeps fades_rule s fd deleted

end Run

end Quickshare
