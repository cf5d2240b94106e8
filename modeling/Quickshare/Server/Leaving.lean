import Quickshare.Lib.Lists
import Quickshare.Server.Cancelling
import Mathlib.Data.List.Nodup

/-! What a client that leaves takes with it: its transfers with all their rows, its
own rows, and a notice for each. The three cursors of `close_client` are nested, with
deletions inside the outer one. -/

namespace Quickshare

open Runs

/-! Statements that succeed -/

section Statements

variable {db : Database} {cId : ClientId} {tId : TransferId} {n : Nat}

/-- The next `n` statements succeed. -/
def Database.Works (db : Database) (n : Nat) : Prop :=
  ∀ k < n, db.outcome (db.executed + k) = none

/-- `db` after `n` statements, with new tables. -/
def Database.after (db : Database) (n : Nat) (tables : Tables) : Database :=
  { db with tables, executed := db.executed + n }

theorem Database.Works.fewer (works : db.Works n) {m : Nat} (fewer : m ≤ n) : db.Works m :=
  fun k less => works k (Nat.lt_of_lt_of_le less fewer)

theorem Database.Works.first (works : db.Works (n + 1)) : db.outcome db.executed = none :=
  works 0 (Nat.succ_pos n)

theorem Database.Works.after (works : db.Works n) {m k : Nat} (enough : m + k ≤ n)
    (tables : Tables) : (db.after m tables).Works k := fun j less => by
  have done := works (m + j) (by omega)
  rwa [← Nat.add_assoc] at done

@[simp] theorem Database.after_tables (db : Database) (n : Nat) (tables : Tables) :
    (db.after n tables).tables = tables := rfl

theorem Database.after_after (db : Database) (m n : Nat) (first second : Tables) :
    (db.after m first).after n second = db.after (m + n) second := by
  simp [Database.after, Nat.add_assoc]

theorem Database.Works.select {Row : Type} (works : db.Works 1) (rows : Tables → List Row) :
    db.select rows = (rows db.tables, db.after 1 db.tables) := by
  simp only [Database.select, Database.tick, works.first, Database.after]

theorem Database.Works.exec (works : db.Works 1) (change : Tables → Tables) :
    db.exec (fun tables => some (change tables)) = (true, db.after 1 (change db.tables)) := by
  simp only [Database.exec, Database.tick, works.first, Database.after]

/-- The transfers a client created. -/
def Tables.created (tables : Tables) (cId : ClientId) : List TransferId :=
  (tables.transfers.filter (·.creatorId = cId)).map TransferRow.transferId

/-- The clients of a transfer that do not deny it, once for each row. -/
def Tables.involved (tables : Tables) (tId : TransferId) : List ClientId :=
  (tables.transferClients.filter fun row => row.transferId = tId ∧ row.accepted ≠ 0).map
    TransferClientRow.clientId

/-- Ids are positive, no two transfers share one, and no client has the id 0. -/
structure Tables.Sound (tables : Tables) : Prop where
  positive : ∀ row ∈ tables.transfers, 1 ≤ row.transferId
  unique : (tables.transfers.map TransferRow.transferId).Nodup
  creators : ∀ row ∈ tables.transfers, row.creatorId ≠ 0
  named : ∀ row ∈ tables.transferClients, row.clientId ≠ 0

theorem Database.Works.getTransfer (works : db.Works 1) (sound : db.tables.Sound) (cId : ClientId) :
    dbGetTransfer db cId = (db.tables.created cId, db.after 1 db.tables) := by
  have whole : (db.tables.created cId).takeWhile (· ≠ 0) = db.tables.created cId := by
    refine List.takeWhile_eq_self_iff.mpr fun id member => ?_
    obtain ⟨row, listed, rfl⟩ := List.mem_map.mp member
    have positive := sound.positive row (List.mem_filter.mp listed).1
    rw [Int64.le_iff_toInt_le] at positive
    simp only [ne_eq, decide_eq_true_eq]
    intro zero
    rw [zero] at positive
    exact absurd positive (by decide)
  unfold dbGetTransfer
  rw [works.select]
  exact congrArg (·, _) whole

theorem Database.Works.getClientAll (works : db.Works 1)
    (named : ∀ row ∈ db.tables.transferClients, row.clientId ≠ 0) (tId : TransferId) :
    dbGetClientAll db tId = (db.tables.involved tId, db.after 1 db.tables) := by
  have whole : (db.tables.involved tId).takeWhile (· ≠ 0) = db.tables.involved tId := by
    refine List.takeWhile_eq_self_iff.mpr fun id member => ?_
    obtain ⟨row, listed, rfl⟩ := List.mem_map.mp member
    simpa using named row (List.mem_filter.mp listed).1
  unfold dbGetClientAll
  rw [works.select]
  exact congrArg (·, _) whole

theorem Database.Works.cleanupTransfer (works : db.Works 2) (tId : TransferId) :
    dbCleanupTransfer db tId = db.after 2 (db.tables.without tId) := by
  have first := (works.fewer (Nat.le_succ 1)).exec fun tables => { tables with
    transferClients := tables.transferClients.filter (·.transferId ≠ tId) }
  have second := (works.after (m := 1) (k := 1) (Nat.le_refl 2) { db.tables with
    transferClients := db.tables.transferClients.filter (·.transferId ≠ tId) }).exec
      fun tables => { tables with transfers := tables.transfers.filter (·.transferId ≠ tId) }
  unfold dbCleanupTransfer
  rw [first]
  dsimp only
  rw [second, Database.after_after]
  rfl

theorem Database.Works.getCreator (works : db.Works 1)
    (creators : ∀ row ∈ db.tables.transfers, row.creatorId ≠ 0) (cId : ClientId) :
    dbGetCreator db cId = (db.tables.joined cId, db.after 1 db.tables) := by
  have whole : (db.tables.joined cId).takeWhile (·.creator ≠ 0) = db.tables.joined cId := by
    refine List.takeWhile_eq_self_iff.mpr fun info member => ?_
    simpa using creators _ (Tables.mem_joined.mp member).2
  unfold dbGetCreator
  rw [works.select]
  exact congrArg (·, _) whole

theorem Database.Works.clientDelete (works : db.Works 1) (cId : ClientId) :
    dbClientDelete db cId = db.after 1 { db.tables with
      transferClients := db.tables.transferClients.filter (·.clientId ≠ cId) } := by
  unfold dbClientDelete
  rw [works.exec fun tables => { tables with
    transferClients := tables.transferClients.filter (·.clientId ≠ cId) }]

theorem Tables.without_named {tables : Tables} (named : ∀ row ∈ tables.transferClients, row.clientId ≠ 0)
    (tId : TransferId) : ∀ row ∈ (tables.without tId).transferClients, row.clientId ≠ 0 :=
  fun row member => named row (List.mem_filter.mp member).1

theorem Tables.without_involved (tables : Tables) {other : TransferId} (ne : other ≠ tId) :
    (tables.without tId).involved other = tables.involved other := by
  unfold involved without
  rw [List.filter_filter]
  congr 1
  refine List.filter_congr fun row _ => ?_
  by_cases here : row.transferId = other
  · simp [here, ne]
  · simp [here]

/-- The tables without some transfers. -/
theorem Tables.without_all (tables : Tables) (ids : List TransferId) :
    ids.foldl Tables.without tables = { tables with
      transfers := tables.transfers.filter (·.transferId ∉ ids)
      transferClients := tables.transferClients.filter (·.transferId ∉ ids) } := by
  induction ids generalizing tables with
  | nil => simp
  | cons tId rest ih =>
    rw [List.foldl_cons, ih]
    simp only [Tables.without, List.filter_filter]
    congr 1
    · refine List.filter_congr fun row _ => ?_
      by_cases here : row.transferId = tId <;> simp [here]
    · refine List.filter_congr fun row _ => ?_
      by_cases here : row.transferId = tId <;> simp [here]

/-- The tables once the client with the id `cId` has left. -/
def Tables.left (tables : Tables) (cId : ClientId) : Tables := { tables with
  transfers := tables.transfers.filter (·.creatorId ≠ cId)
  transferClients := tables.transferClients.filter fun row =>
    row.transferId ∉ tables.created cId ∧ row.clientId ≠ cId }

/-- Where no two transfers share an id, a transfer is one the client created exactly if
its row says so. -/
theorem Tables.Sound.created_iff {tables : Tables} (sound : tables.Sound) {row : TransferRow}
    (held : row ∈ tables.transfers) : row.transferId ∈ tables.created cId ↔ row.creatorId = cId := by
  constructor
  · intro member
    obtain ⟨other, listed, same⟩ := List.mem_map.mp member
    obtain ⟨known, creator⟩ := List.mem_filter.mp listed
    have one := List.inj_on_of_nodup_map sound.unique known held same
    exact one ▸ of_decide_eq_true creator
  · intro creator
    exact List.mem_map_of_mem (List.mem_filter.mpr ⟨held, decide_eq_true creator⟩)

theorem Tables.Sound.left {tables : Tables} (sound : tables.Sound) (cId : ClientId) :
    { (tables.created cId).foldl Tables.without tables with
      transferClients := ((tables.created cId).foldl Tables.without tables).transferClients.filter
        (·.clientId ≠ cId) } = tables.left cId := by
  rw [Tables.without_all]
  unfold Tables.left
  dsimp only
  rw [List.filter_filter]
  congr 1
  · refine List.filter_congr fun row held => ?_
    rw [decide_eq_decide]
    exact not_congr (sound.created_iff held)
  · refine List.filter_congr fun row _ => ?_
    simp [and_comm]

end Statements

/-! The plan of a disconnect -/

section Plan

variable {s t : Server} {c i : Slot} {db : Database} {tId : TransferId}

/-- One cancel of `tId` for each of the connected clients. -/
def cancelPlanFor (s : Server) (c : Slot) (clients : List ClientId) (tId : TransferId) : Plan :=
  toConnected s id (fun _ => transferState (s.client c).id tId .transferCancel) clients

theorem cancelTransferPlan_works (works : db.Works 3)
    (named : ∀ row ∈ db.tables.transferClients, row.clientId ≠ 0) (s : Server) (c : Slot)
    (tId : TransferId) : cancelTransferPlan s c db tId =
      (cancelPlanFor s c (db.tables.involved tId) tId, db.after 3 (db.tables.without tId)) := by
  have read := (works.fewer (m := 1) (by omega)).getClientAll named tId
  have deleted := (works.after (m := 1) (k := 2) (Nat.le_refl 3) db.tables).cleanupTransfer tId
  unfold cancelTransferPlan
  rw [read]
  dsimp only
  rw [deleted, Database.after_after]
  rfl

/-- Cancelling transfers one by one cancels each as it is at first. -/
theorem cancels_works (ids : List TransferId) (distinct : ids.Nodup)
    (works : db.Works (3 * ids.length))
    (named : ∀ row ∈ db.tables.transferClients, row.clientId ≠ 0) (s : Server) (c : Slot) :
    foldPlan (cancelTransferPlan s c) db ids =
      (ids.flatMap fun tId => cancelPlanFor s c (db.tables.involved tId) tId,
        db.after (3 * ids.length) (ids.foldl Tables.without db.tables)) := by
  induction ids generalizing db with
  | nil => rfl
  | cons tId rest ih =>
    obtain ⟨new, distinct⟩ := List.nodup_cons.mp distinct
    rw [List.length_cons] at works
    have first := cancelTransferPlan_works (works.fewer (by omega)) named s c tId
    have later := ih distinct (works.after (m := 3) (by omega) (db.tables.without tId))
      (Tables.without_named named tId)
    have same : ∀ other ∈ rest, cancelPlanFor s c ((db.tables.without tId).involved other) other =
        cancelPlanFor s c (db.tables.involved other) other := by
      intro other member
      rw [Tables.without_involved _ fun here : other = tId => new (here ▸ member)]
    have plans : (rest.flatMap fun other =>
        cancelPlanFor s c ((db.tables.without tId).involved other) other) =
          rest.flatMap fun other => cancelPlanFor s c (db.tables.involved other) other :=
      List.flatMap_congr same
    simp only [foldPlan, first, later, Database.after_after]
    refine Prod.ext ?_ ?_
    · exact congrArg (cancelPlanFor s c (db.tables.involved tId) tId ++ ·) plans
    · rw [List.length_cons, Nat.mul_succ, Nat.add_comm]
      rfl

/-- The cancels of a client that leaves: for its transfers, and for its other rows. -/
def farewellPlan (s : Server) (c : Slot) (tables : Tables) : Plan :=
  (tables.created (s.client c).id).flatMap (fun tId =>
    cancelPlanFor s c (tables.involved tId) tId) ++
  leavePlan s c (((tables.created (s.client c).id).foldl Tables.without tables).joined
    (s.client c).id)

theorem disconnectBody_works (sound : db.tables.Sound) (s : Server) (c : Slot)
    (works : db.Works (3 * (db.tables.created (s.client c).id).length + 3)) :
    disconnectBody s c db = (farewellPlan s c db.tables,
      db.after (3 * (db.tables.created (s.client c).id).length + 3)
        (db.tables.left (s.client c).id)) := by
  have left := sound.left (s.client c).id
  have distinct : (db.tables.created (s.client c).id).Nodup :=
    sound.unique.sublist (List.filter_sublist.map _)
  have creators : ∀ row ∈ ((db.tables.created (s.client c).id).foldl Tables.without
      db.tables).transfers, row.creatorId ≠ 0 := by
    rw [Tables.without_all]
    exact fun row member => sound.creators row (List.mem_filter.mp member).1
  have listed := (works.fewer (m := 1) (by omega)).getTransfer sound (s.client c).id
  unfold farewellPlan
  generalize db.tables.created (s.client c).id = ids at left distinct creators listed works ⊢
  have cancelled := cancels_works ids distinct (works.after (m := 1) (by omega) db.tables)
    sound.named s c
  rw [Database.after_tables, Database.after_after] at cancelled
  generalize ids.foldl Tables.without db.tables = tables at left creators cancelled ⊢
  have joined := (works.after (m := 1 + 3 * ids.length) (k := 1) (by omega) tables).getCreator
    creators (s.client c).id
  have deleted := (works.after (m := 1 + 3 * ids.length + 1) (k := 1) (by omega)
    tables).clientDelete (s.client c).id
  have rows : (dbGetCreator (db.after (1 + 3 * ids.length) tables) (s.client c).id) =
      (tables.joined (s.client c).id, db.after (1 + 3 * ids.length + 1) tables) := by
    rw [joined, Database.after_after]
    rfl
  unfold disconnectBody
  rw [listed]
  dsimp only
  rw [cancelled]
  dsimp only
  rw [rows, deleted, Database.after_after]
  refine Prod.ext rfl ?_
  have count : 1 + 3 * ids.length + 1 + 1 = 3 * ids.length + 3 := by omega
  rw [count]
  exact congrArg (db.after (3 * ids.length + 3)) left

/-- The statements `close_client` runs for a client that created `m` transfers. -/
def closingStatements (m : Nat) : Nat := 3 * m + 5

theorem disconnectPlan_works (sound : s.db.tables.Sound) (closed : s.db.saved = none)
    (works : s.db.Works (closingStatements (s.db.tables.created (s.client c).id).length)) :
    (disconnectPlan s c).1 = farewellPlan s c s.db.tables ∧
      (disconnectPlan s c).2.tables = s.db.tables.left (s.client c).id ∧
      (disconnectPlan s c).2.saved = none := by
  let m := (s.db.tables.created (s.client c).id).length
  let opened : Database := { s.db.tick.2 with saved := some s.db.tables }
  have first : s.db.Works 1 := works.fewer (by simp only [closingStatements]; omega)
  have begun : dbTransaction s.db .begin = (true, opened) := by
    rw [dbTransaction_begin, if_pos ⟨first.first, closed⟩]
  have going : opened.Works (3 * m + 4) :=
    works.after (m := 1) (by simp only [closingStatements]; omega) s.db.tables
  have body := disconnectBody_works (show opened.tables.Sound from sound) s c
    (going.fewer (Nat.le_succ _))
  have last := (going.after (m := 3 * m + 3) (k := 1) (Nat.le_refl _)
    (s.db.tables.left (s.client c).id)).first
  have done : disconnectBody s c opened = (farewellPlan s c s.db.tables,
      opened.after (3 * m + 3) (s.db.tables.left (s.client c).id)) := body
  have committed : (dbTransaction (opened.after (3 * m + 3) (s.db.tables.left (s.client c).id))
      .commit).2.saved = none := by
    rw [dbTransaction_commit, if_pos ⟨last, rfl⟩]
  simp only [disconnectPlan, inTransaction, begun, if_true, done, dbTransaction_commit_tables]
  exact ⟨trivial, rfl, committed⟩

end Plan

/-! What each client is told -/

section Told

variable {Item : Type} {s t : Server} {c i : Slot} {tId : TransferId} {cId : ClientId}
  {tables : Tables}

theorem toConnected_toward (s : Server) (key : Item → ClientId) (packet : Item → Packet → Packet)
    (items : List Item) (i : Slot) : (toConnected s key packet items).toward i =
      (items.filter fun x => clientFindById s.clients (key x) = some i).map packet := by
  induction items with
  | nil => rfl
  | cons x rest ih =>
    have first : toConnected s key packet (x :: rest) =
        ((clientFindById s.clients (key x)).map (·, packet x)).toList ++
          toConnected s key packet rest := rfl
    rw [first, Plan.toward_append, ih]
    cases found : clientFindById s.clients (key x) with
    | none => simp [Plan.toward, found]
    | some j => by_cases here : j = i <;> simp [Plan.toward, found, here]

theorem Plan.toward_flatMap (items : List Item) (plan : Item → Plan) (i : Slot) :
    Plan.toward (items.flatMap plan) i = items.flatMap fun x => (plan x).toward i := by
  simp only [Plan.toward, List.filter_flatMap, List.map_flatMap]

/-- The cancels a plan of cancels has for a client, as the transfers they are for. -/
def Plan.Tells (plan : Plan) (sender : ClientId) (i : Slot) (ids : List TransferId) : Prop :=
  plan.toward i = ids.map fun tId => transferState sender tId .transferCancel

theorem cancelPlanFor_tells (distinct : s.DistinctIds) (clients : List ClientId) (tId : TransferId)
    (i : Slot) : (cancelPlanFor s c clients tId).Tells (s.client c).id i
      (List.replicate (if s.Live i then clients.count (s.client i).id else 0) tId) := by
  unfold cancelPlanFor Plan.Tells
  rw [toConnected_copies, Plan.toward_copies, distinct.count_found, List.map_replicate]

theorem leavePlan_tells (distinct : s.DistinctIds) (infos : List TransferInfo) (i : Slot) :
    (leavePlan s c infos).Tells (s.client c).id i
      ((infos.filter fun info => s.Live i ∧ info.creator = (s.client i).id).map
        TransferInfo.tId) := by
  have same : (infos.filter fun info => clientFindById s.clients info.creator = some i) =
      infos.filter fun info => s.Live i ∧ info.creator = (s.client i).id :=
    List.filter_congr fun info _ => by rw [decide_eq_decide, distinct.find_iff]
  unfold leavePlan Plan.Tells
  rw [toConnected_toward, same, List.map_map]
  rfl

/-- The transfers `c` tells a client of when it leaves. -/
def Server.farewells (s : Server) (c : Slot) (tables : Tables) (i : Slot) : List TransferId :=
  ((tables.created (s.client c).id).flatMap fun tId =>
    List.replicate (if s.Live i then (tables.involved tId).count (s.client i).id else 0) tId) ++
  ((((tables.created (s.client c).id).foldl Tables.without tables).joined
    (s.client c).id).filter fun info => s.Live i ∧ info.creator = (s.client i).id).map
      TransferInfo.tId

theorem farewellPlan_tells (distinct : s.DistinctIds) (tables : Tables) (i : Slot) :
    (farewellPlan s c tables).Tells (s.client c).id i (s.farewells c tables i) := by
  unfold farewellPlan Server.farewells Plan.Tells
  rw [Plan.toward_append, leavePlan_tells distinct, List.map_append, Plan.toward_flatMap,
    List.map_flatMap]
  congr 1
  exact List.flatMap_congr fun tId _ => cancelPlanFor_tells distinct _ tId i

theorem goodbyePlan_copies (s : Server) (c : Slot) : goodbyePlan s c =
    ((List.finRange maxClients).filter fun i => s.peer c i).map
      (·, fun _ => singleUserPacket (s.client c) .serverDelUsers) := by
  unfold goodbyePlan
  induction List.finRange maxClients with
  | nil => rfl
  | cons i rest ih =>
    rw [List.flatMap_cons, ih]
    cases peer : s.peer c i <;> simp [peer]

theorem goodbyePlan_toward (s : Server) (c i : Slot) : (goodbyePlan s c).toward i =
    if s.peer c i then [fun _ => singleUserPacket (s.client c) .serverDelUsers] else [] := by
  have once := Lists.count_filter (List.nodup_finRange maxClients) (List.mem_finRange i) (s.peer c)
  rw [goodbyePlan_copies, Plan.toward_copies, once]
  cases s.peer c i <;> simp

/-! How often it is told of each transfer -/

theorem Tables.mem_created : tId ∈ tables.created cId ↔ ⟨tId, cId⟩ ∈ tables.transfers := by
  unfold created
  constructor
  · intro member
    obtain ⟨row, listed, rfl⟩ := List.mem_map.mp member
    obtain ⟨held, creator⟩ := List.mem_filter.mp listed
    rwa [← of_decide_eq_true creator]
  · intro held
    exact List.mem_map.mpr ⟨⟨tId, cId⟩, List.mem_filter.mpr ⟨held, decide_eq_true rfl⟩, rfl⟩

theorem Tables.involved_count (tables : Tables) (tId : TransferId) (id : ClientId) :
    (tables.involved tId).count id = tables.transferClients.countP fun row =>
      row.transferId = tId ∧ row.accepted ≠ 0 ∧ row.clientId = id := by
  unfold involved
  rw [List.count, List.countP_map, List.countP_filter]
  refine List.countP_congr fun row _ => ?_
  simp [and_comm, and_left_comm]

/-- A client's row leads to a transfer's creator once if it is for that transfer. -/
theorem joined_row (distinct : tables.transfers.Nodup) (tId other : TransferId) (id : ClientId) :
    ((tables.transfers.filter (·.transferId = other)).map fun row =>
      TransferInfo.mk row.creatorId row.transferId).countP
        (fun info => info.tId = tId ∧ info.creator = id) =
      if other = tId ∧ ⟨tId, id⟩ ∈ tables.transfers then 1 else 0 := by
  have same : ((tables.transfers.filter (·.transferId = other)).map fun row =>
      TransferInfo.mk row.creatorId row.transferId).countP
        (fun info => info.tId = tId ∧ info.creator = id) =
      (tables.transfers.filter (·.transferId = other)).count ⟨tId, id⟩ := by
    rw [List.countP_map]
    refine List.countP_congr fun row _ => ?_
    cases row
    simp
  rw [same, (distinct.filter _).count]
  simp [and_comm, eq_comm]

theorem Tables.joined_count (distinct : tables.transfers.Nodup) (cId id : ClientId)
    (tId : TransferId) :
    (tables.joined cId).countP (fun info => info.tId = tId ∧ info.creator = id) =
      if ⟨tId, id⟩ ∈ tables.transfers then
        tables.transferClients.countP fun row => row.transferId = tId ∧ row.clientId = cId
      else 0 := by
  have rows : (tables.transferClients.countP fun row => row.transferId = tId ∧ row.clientId = cId) =
      (tables.transferClients.filter (·.clientId = cId)).countP (·.transferId = tId) := by
    rw [List.countP_filter]
    exact List.countP_congr fun row _ => by simp
  unfold joined
  rw [rows, List.map_flatMap]
  induction tables.transferClients.filter (·.clientId = cId) with
  | nil => simp
  | cons row rest ih =>
    rw [List.flatMap_cons, List.countP_append, ih, List.countP_cons, joined_row distinct]
    by_cases held : ⟨tId, id⟩ ∈ tables.transfers
    · by_cases of : row.transferId = tId <;> simp [of, held, Nat.add_comm]
    · simp [held]

/-- How many cancels of `tId` a connected client gets when `c` leaves: one for each of its
rows that does not deny the transfer of `c`, or one for each row of `c` if it created the
transfer. -/
def Server.leavingCancels (s : Server) (c : Slot) (tId : TransferId) (i : Slot) : Nat :=
  if s.Live i then
    if s.isCreator c tId then
      s.db.tables.transferClients.countP fun row =>
        row.transferId = tId ∧ row.accepted ≠ 0 ∧ row.clientId = (s.client i).id
    else if ⟨tId, (s.client i).id⟩ ∈ s.db.tables.transfers then
      s.db.tables.transferClients.countP fun row =>
        row.transferId = tId ∧ row.clientId = (s.client c).id
    else 0
  else 0

/-- The rows that remain lead to a creator only for a transfer `c` did not create. -/
theorem remaining_joined (distinct : tables.transfers.Nodup) (cId id : ClientId)
    (tId : TransferId) :
    (((tables.created cId).foldl Tables.without tables).joined cId).countP
        (fun info => info.tId = tId ∧ info.creator = id) =
      if tId ∈ tables.created cId then 0
      else if ⟨tId, id⟩ ∈ tables.transfers then
        tables.transferClients.countP fun row => row.transferId = tId ∧ row.clientId = cId
      else 0 := by
  rw [Tables.without_all, Tables.joined_count (distinct.filter _), List.countP_filter]
  by_cases mine : tId ∈ tables.created cId
  · simp [mine]
  · have rows : (tables.transferClients.countP fun row =>
        decide (row.transferId = tId ∧ row.clientId = cId) &&
          decide (row.transferId ∉ tables.created cId)) =
        tables.transferClients.countP fun row => row.transferId = tId ∧ row.clientId = cId := by
      refine List.countP_congr fun row _ => ?_
      simp only [Bool.and_eq_true, decide_eq_true_eq]
      exact ⟨And.left, fun both => ⟨both, both.1 ▸ mine⟩⟩
    rw [rows]
    simp [mine]

theorem farewells_count (sound : s.db.tables.Sound) (c : Slot) (tId : TransferId) (i : Slot) :
    (s.farewells c s.db.tables i).count tId = s.leavingCancels c tId i := by
  have transfers : s.db.tables.transfers.Nodup := .of_map _ sound.unique
  have created : (s.db.tables.created (s.client c).id).Nodup :=
    sound.unique.sublist (List.filter_sublist.map _)
  have creator : tId ∈ s.db.tables.created (s.client c).id ↔ s.isCreator c tId := Tables.mem_created
  unfold Server.farewells Server.leavingCancels
  rw [List.count_append, Lists.count_repeated created]
  by_cases live : s.Live i
  · have later (infos : List TransferInfo) :
        ((infos.filter fun info => s.Live i ∧ info.creator = (s.client i).id).map
          TransferInfo.tId).count tId =
        infos.countP fun info => info.tId = tId ∧ info.creator = (s.client i).id := by
      rw [List.count, List.countP_map, List.countP_filter]
      exact List.countP_congr fun info _ => by simp [live]
    rw [later, remaining_joined transfers, Tables.involved_count]
    simp only [creator, live, if_true]
    by_cases mine : s.isCreator c tId <;> simp [mine]
  · simp [live]

end Told

/-! What a disconnect leaves -/

section Purpose

variable {Item : Type} {s t : Server} {c i : Slot} {fd : Int} {deleted : Bool}

/-- What a client hears of the departure of `c` itself. -/
def Server.goodbyes (s : Server) (c i : Slot) : List Packet :=
  if i ≠ c ∧ (s.client i).state = .complete ∧ (s.client i).sessionId = (s.client c).sessionId then
    [singleUserPacket (s.client c) .serverDelUsers]
  else []

/-- `t` is `s` once `c` has left: its rows and those of its transfers are gone and no
others, and every connected client has heard of each. -/
structure Server.Cleans (s : Server) (c : Slot) (t : Server) : Prop where
  tables : t.db.tables = s.db.tables.left (s.client c).id
  closed : t.db.saved = none
  gone : ¬ t.Live c
  told : ∀ i, ∃ cancels, (t.client i).msgQueue.contents =
      (s.client i).msgQueue.contents ++ cancels ++ s.goodbyes c i ∧
    (∀ p ∈ cancels, p.type? = some .transferCancel ∧ p.hdrFrom = (s.client c).id) ∧
    ∀ tId, (cancels.map Packet.tId).count tId = s.leavingCancels c tId i
  parting : ∀ i, ∀ p ∈ s.goodbyes c i, p.type? = some .serverDelUsers

theorem goodbyes_type (s : Server) (c i : Slot) :
    ∀ p ∈ s.goodbyes c i, p.type? = some .serverDelUsers := by
  intro p member
  unfold Server.goodbyes at member
  split at member
  · rw [List.mem_singleton.mp member]
    exact (Packet.type?_write _ _ (by decide)).trans
      ((Packet.type?_storeInt64 _ _ (by decide)).trans (Packet.type?_packetHdr ..))
  · cases member

/-- Where ids are distinct the peers of a client are the others of its session. -/
theorem goodbyePlan_goodbyes (distinct : s.DistinctIds) (live : s.Live c) (i : Slot) :
    (goodbyePlan s c).toward i = (s.goodbyes c i).map fun p _ => p := by
  have peer : s.peer c i = true ↔ i ≠ c ∧ (s.client i).state = .complete ∧
      (s.client i).sessionId = (s.client c).sessionId := by
    simp only [Server.peer, decide_eq_true_eq]
    refine and_congr_left fun member => not_congr ⟨fun same => ?_, fun same => by rw [same]⟩
    refine distinct i c ?_ live same
    simp [Server.Live, member.1]
  rw [goodbyePlan_toward, Server.goodbyes]
  by_cases told : s.peer c i = true
  · rw [if_pos told, if_pos (peer.mp told)]
    rfl
  · rw [if_neg told, if_neg (mt peer.mpr told)]
    rfl

theorem made_tIds (q : Queue Packet) (sender : ClientId) (ids : List TransferId) :
    (q.made (ids.map fun tId => transferState sender tId .transferCancel)).map Packet.tId = ids := by
  induction ids generalizing q with
  | nil => rfl
  | cons tId rest ih =>
    obtain ⟨-, same, -⟩ := transferState_cancels sender tId (q.items q.head)
    exact congrArg₂ List.cons same (ih _)

/-- What a computation that sends cancels and then copies leaves in a queue. -/
theorem Sends.leaves {plan later : Plan} {db : Database} {r : Run Server} {sender : ClientId}
    {ids : List TransferId} {copies : List Packet} (sends : Sends s (plan ++ later) db r)
    (valid : s.QueuesValid) (done : r = .ok t) (tells : plan.Tells sender i ids)
    (copied : later.toward i = copies.map fun p _ => p) :
    ∃ cancels, (t.client i).msgQueue.contents =
        (s.client i).msgQueue.contents ++ cancels ++ copies ∧
      (∀ p ∈ cancels, p.type? = some .transferCancel ∧ p.hdrFrom = sender) ∧
      cancels.map Packet.tId = ids := by
  have added := sends.contents valid done i
  rw [Plan.toward_append, Queue.made_append, copied, Queue.made_const, ← List.append_assoc,
    tells] at added
  refine ⟨_, added, Queue.made_forall _ fun f member old => ?_, made_tIds _ sender ids⟩
  obtain ⟨tId, -, rfl⟩ := List.mem_map.mp member
  have cancel := transferState_cancels sender tId old
  exact ⟨cancel.1, cancel.2.2⟩

/-- `close_client` cleans up after a client in a session when its statements succeed and
the packets it sends find room. -/
theorem closeClient_cleans (sound : s.db.tables.Sound) (valid : s.QueuesValid)
    (distinct : s.DistinctIds) (closed : s.db.saved = none)
    (found : clientFind s.clients fd = some c) (complete : (s.client c).state = .complete)
    (deletes : (epollDel s fd deleted).1 = true)
    (works : s.db.Works (closingStatements (s.db.tables.created (s.client c).id).length))
    (room : ¬ Overflows (closeClient s fd deleted)) :
    ∃ t, closeClient s fd deleted = .ok t ∧ s.Cleans c t := by
  have known : deleted = true ∧ fd ∈ s.epoll := by
    unfold epollDel at deletes
    split at deletes
    · assumption
    · cases deletes
  have plan := disconnectPlan_works sound closed works
  have fault := closeClient_fault s fd deleted
  rw [closeClient_eq, if_pos known] at room fault ⊢
  simp only [found] at room fault ⊢
  let s' : Server := { s with epoll := s.epoll.erase fd }
  have sends : Sends s' (farewellPlan s c s.db.tables ++ goodbyePlan s c)
      (disconnectPlan s c).2 (leaveSession s' c) := by
    have plan' : leavingPlan s' c = ((disconnectPlan s c).1 ++ goodbyePlan s c,
        (disconnectPlan s c).2) := if_pos complete
    have all := leaveSession_sends s' c
    rwa [plan', plan.1] at all
  cases left : leaveSession s' c with
  | error failed =>
    rw [left] at room fault
    exact absurd ⟨failed.2, congrArg Except.error (Prod.ext fault rfl)⟩ room
  | ok u =>
    have here : clientFind u.clients fd = some c := by
      have same := sends.same
      rw [left] at same
      exact (same.find fd).trans found
    have database : u.db = (disconnectPlan s c).2 := by
      rw [left] at sends
      exact sends.db_ok
    have live : s.Live c := by simp [Server.Live, complete]
    refine ⟨u.closed fd, rfl, ?_, ?_, ?_, fun i => ?_, goodbyes_type s c⟩
    · exact (congrArg Database.tables database).trans plan.2.1
    · exact (congrArg Database.saved database).trans plan.2.2
    · have freed : (u.closed fd).client c = (u.client c).freed := clientClose_self here
      simp [Server.Live, freed, Client.freed]
    · obtain ⟨cancels, contents, are, ids⟩ := sends.leaves valid left
        (farewellPlan_tells distinct s.db.tables i) (goodbyePlan_goodbyes distinct live i)
      rw [Server.closed_queue]
      refine ⟨cancels, contents, are, fun tId => ?_⟩
      rw [ids, farewells_count sound]

end Purpose

/-! What every run keeps -/

section Runs

variable {s t : Server} {c i : Slot} {db next : Database} {e : Event} {tId : TransferId}
  {cId : ClientId} {recipients : List ClientId}

theorem Tables.Sound.thins (sound : db.tables.Sound) (thins : db.Thins next) :
    next.tables.Sound where
  positive := fun row member => sound.positive row (thins.transfers.subset member)
  unique := sound.unique.sublist (thins.transfers.map _)
  creators := fun row member => sound.creators row (thins.transfers.subset member)
  named := fun row member => by
    have key := thins.clients.subset
      (List.mem_map_of_mem (f := fun row => (row.transferId, row.clientId)) member)
    obtain ⟨old, held, same⟩ := List.mem_map.mp key
    exact (Prod.mk.inj same).2 ▸ sound.named old held

/-- A new transfer gets an id that is positive and not in use. -/
theorem Tables.Sound.grants (sound : db.tables.Sound) (grants : db.Grants cId recipients tId next)
    (creator : cId ≠ 0) (named : ∀ id ∈ recipients, id ≠ 0) : next.tables.Sound where
  positive := fun row member => by
    rw [grants.transfers, List.mem_append, List.mem_singleton] at member
    rcases member with old | rfl
    · exact sound.positive row old
    · rcases nextRowid_some grants.rowid with ⟨-, rfl⟩ | ⟨last, listed, -, next⟩
      · exact Int64.le_refl 1
      · obtain ⟨row, held, rfl⟩ := List.mem_map.mp listed
        have positive := sound.positive row held
        rw [Int64.le_iff_toInt_le] at positive ⊢
        calc Int64.toInt 1 ≤ row.transferId.toInt := positive
          _ ≤ tId.toInt := by omega
  unique := by
    rw [grants.transfers, List.map_append]
    refine List.nodup_append.mpr ⟨sound.unique, List.nodup_singleton _, ?_⟩
    rintro id old other new rfl
    obtain ⟨row, held, rfl⟩ := List.mem_map.mp old
    exact grants.unused row held (List.mem_singleton.mp new)
  creators := fun row member => by
    rw [grants.transfers, List.mem_append, List.mem_singleton] at member
    rcases member with old | rfl
    · exact sound.creators row old
    · exact creator
  named := fun row member => by
    rw [grants.clients, List.mem_append, List.mem_map] at member
    rcases member with old | ⟨id, listed, rfl⟩
    · exact sound.named row old
    · exact named id listed

/-- No connected client has the id 0. -/
def Server.Named (s : Server) : Prop := ∀ i, s.Live i → (s.client i).id ≠ 0

theorem Server.Named.of_live (named : s.Named) (live : ∀ i, t.Live i → s.Live i)
    (id : ∀ i, (t.client i).id = (s.client i).id) : t.Named :=
  fun i here => by rw [id i]; exact named i (live i here)

theorem Server.Named.modify (named : s.Named) (f : Client → Client)
    (live : (f (s.client i)).state ≠ .empty → (s.client i).state ≠ .empty)
    (id : (f (s.client i)).id = (s.client i).id) : (s.modify i f).Named :=
  named.of_live (s.modify_ids f live id).1 (s.modify_ids f live id).2

theorem named_rule : PacketRule Server.Named fun _ => True where
  toStepRule := .of_clients (fun s t same named => named.of_live (fun i => (same.live i).mp) same.id)
    (fun s i d named drains => by
      have rest := drains.rest
      refine named.modify (fun _ => d) ?_ ?_ <;> rw [rest]
      exact id)
    (fun s fd named => named.of_live (s.closed_live fd) (s.closed_id fd))
    (fun s i fd named => named.modify _ id rfl)
    (fun s i named connected => named.modify _ (by simp [connected]) rfl)
  received := fun s c buf named => named.modify _ id rfl
  called := fun _ _ named => named

/-- `time(NULL)` is not 0 when a client is accepted. -/
def Event.timed : Event → Bool
  | .accept conn => conn.now ≠ 0
  | _ => true

theorem delivered_live (delivers : s.delivers e = some (c, t)) : t.Live c := by
  obtain ⟨fd, chunk, buf, -, found, rfl⟩ := delivers_received delivers
  rw [Server.Live, Server.handed_client, Server.received, Server.client_modify_self]
  exact (clientFind_some found).1

theorem Server.Named.step (named : s.Named) (timed : e.timed = true) :
    Ends Server.Named (fun _ => True) (Quickshare.step s e) := by
  refine named_rule.step named e (fun conn i clients same _ _ taken => ?_)
    fun c t delivers named => ?_
  · subst same
    obtain ⟨-, rfl⟩ := clientInit_some taken
    intro j live
    by_cases here : j = i
    · subst here
      have new : (s.clients.modify j (clientConfigure conn.now conn.ssl)).list j =
          clientConfigure conn.now conn.ssl (s.clients.list j) := s.clients.modify_self j _
      simp only [Server.client, new]
      exact of_decide_eq_true timed
    · have kept : (s.clients.modify i (clientConfigure conn.now conn.ssl)).list j =
          s.clients.list j := s.clients.modify_of_ne _ here
      simp only [Server.Live, Server.client, kept] at live ⊢
      exact named j live
  · exact (analizePacket_touches t c).mono (fun u _ handled =>
      named.of_live (handled.live (delivered_live delivers)) handled.id) fun _ _ => trivial

theorem Tables.Sound.step (sound : s.db.tables.Sound) (named : s.Named) (e : Event) :
    Ends (fun t => t.db.tables.Sound) (fun _ => True) (Quickshare.step s e) := by
  have rule : PacketRule (fun s => s.db.tables.Sound) fun _ => True := {
    fail := fun _ _ _ _ => trivial
    drain := fun _ _ _ held _ => held
    close := fun s fd deleted held => (closeClient_keeps thins_rule s fd deleted).mono
      (fun t _ kept => held.thins kept.2) fun _ _ => trivial
    frame := fun _ _ _ held => held
    setFd := fun _ _ _ held => held
    secured := fun _ _ held _ => held
    received := fun _ _ _ held => held
    called := fun _ _ held => held }
  refine rule.step sound e (fun _ _ _ _ _ _ _ => sound) fun c t delivers held => ?_
  by_cases granted : t.granted c
  · refine Ends.mono (analizePacket_rows t c) (fun u _ rows => ?_) fun _ _ => trivial
    obtain ⟨fd, chunk, buf, -, -, rfl⟩ := delivers_received delivers
    have known := named_rule.handed named c buf c (delivered_live delivers)
    exact held.grants (rows.granted granted) known fun _ => requestIds_ne_zero
  · exact (analizePacket_keeps thins_rule granted).mono (fun u _ kept => held.thins kept.2)
      fun _ _ => trivial

end Runs

/-- Whatever has happened since the server started, a client in a session that is closed
takes its rows, and those of its transfers, with it, and every client that they concern
hears of it once for each, if the statements of `close_client` and `EPOLL_CTL_DEL` succeed
and no queue is full. -/
theorem disconnect_cleans {db : Database} (initial : db.tables.Sound) {events : List Event}
    (timed : ∀ e ∈ events, e.timed = true) {s : Server}
    (reached : run step (Server.init db) events = .ok s) (distinct : s.DistinctIds)
    (closed : s.db.saved = none) {fd : Int} {c : Slot} (found : clientFind s.clients fd = some c)
    (complete : (s.client c).state = .complete)
    (works : s.db.Works (closingStatements (s.db.tables.created (s.client c).id).length))
    {deleted : Bool} (deletes : (epollDel s fd deleted).1 = true)
    (room : ¬ Overflows (closeClient s fd deleted)) :
    ∃ t, closeClient s fd deleted = .ok t ∧ s.Cleans c t := by
  let inv (s : Server) : Prop := s.db.tables.Sound ∧ s.Named ∧ s.QueuesValid
  have start : inv (Server.init db) := by
    refine ⟨initial, fun i live => ?_, init_queuesValid db⟩
    exact absurd rfl live
  have kept : inv s := by
    refine Guarded.invariant (.of_events timed _) start (fun s e t held timed taken => ?_) reached
    obtain ⟨sound, named, valid⟩ := held
    have ends := (sound.step named e).and ((named.step timed).and (valid.step e))
    rwa [taken] at ends
  exact closeClient_cleans kept.1 kept.2.2 distinct closed found complete deletes works room

theorem fresh_sound : Database.fresh.tables.Sound where
  positive := nofun
  unique := .nil
  creators := nofun
  named := nofun

/-- Two clients in a session, each recipient of a transfer of the other, one of them twice. -/
def mutualOffers : List Event :=
  connects 4 100 ++ connects 5 101 ++ packetFrom 4 .clientIntro (introBody 1) ++
    packetFrom 5 .clientIntro (introBody 0) ++ packetFrom 4 .transferRequest (requestBody 101) ++
    packetFrom 5 .transferRequest (requestBody 100) ++
    packetFrom 5 .transferRequest (requestBody 100)

/-- One transfer goes with its creator and two stay, for whose rows their creator hears of it
twice. -/
theorem disconnect_cleans_mutual : ∃ s t, run step (Server.init .fresh) mutualOffers = .ok s ∧
    s.db.tables.created 100 = [1] ∧ s.leavingCancels 0 1 1 = 1 ∧ s.leavingCancels 0 2 1 = 1 ∧
    s.leavingCancels 0 3 1 = 1 ∧ closeClient s 4 true = .ok t ∧ s.Cleans 0 t := by
  have passed : Run.passes (fun s => s.db.tables.created 100 = [1] ∧
      s.leavingCancels 0 1 1 = 1 ∧ s.leavingCancels 0 2 1 = 1 ∧ s.leavingCancels 0 3 1 = 1 ∧
      (∀ i j, s.Live i → s.Live j → (s.client i).id = (s.client j).id → i = j) ∧
      s.db.saved = none ∧ clientFind s.clients 4 = some 0 ∧ (s.client 0).state = .complete ∧
      (∀ k < closingStatements (s.db.tables.created (s.client 0).id).length,
        s.db.outcome (s.db.executed + k) = none) ∧
      (epollDel s 4 true).1 = true ∧ (closeClient s 4 true).toOption.isSome)
      (run step (Server.init .fresh) mutualOffers) = true := by decide +kernel
  obtain ⟨s, reached, check⟩ := Run.passes_ok passed
  obtain ⟨created, first, second, third, distinct, closed, found, complete, works, deletes, ends⟩ :=
    of_decide_eq_true check
  have room : ¬ Overflows (closeClient s 4 true) := by
    rintro ⟨t, failed⟩
    rw [failed] at ends
    cases ends
  have timed : ∀ e ∈ mutualOffers, e.timed = true := by decide +kernel
  obtain ⟨t, done, cleans⟩ := disconnect_cleans fresh_sound timed reached distinct closed found
    complete works deletes room
  exact ⟨s, t, reached, created, first, second, third, done, cleans⟩

end Quickshare
