import Quickshare.Server.Rows
import Quickshare.Server.QueueSpace
import Quickshare.Server.Identity
import Mathlib.Data.List.TakeWhile

/-! Referential integrity. Only clients in a session are cleaned up after when
they leave, so the rows stay those of connected clients exactly as long as only
such clients get into them. -/

namespace Quickshare

open Runs

/-- Every row is of registered clients and every client's row of a transfer. -/
structure Tables.Linked (registered : ClientId → Prop) (tables : Tables) : Prop where
  creators : ∀ row ∈ tables.transfers, registered row.creatorId
  clients : ∀ row ∈ tables.transferClients, registered row.clientId
  transfers : ∀ row ∈ tables.transferClients, ∃ transfer ∈ tables.transfers,
    transfer.transferId = row.transferId

/-- A database whose statements all succeed, its rows linked and its ids positive. -/
structure Database.Sane (registered : ClientId → Prop) (db : Database) : Prop where
  works : ∀ n, db.outcome n = none
  linked : db.tables.Linked registered
  positive : ∀ row ∈ db.tables.transfers, 1 ≤ row.transferId

section Statements

variable {registered other : ClientId → Prop} {db next : Database} {tId : TransferId}
  {cId : ClientId} {tables : Tables}

theorem Tables.Linked.weaken (linked : tables.Linked registered)
    (weaker : ∀ id, registered id → other id) : tables.Linked other where
  creators := fun row member => weaker _ (linked.creators row member)
  clients := fun row member => weaker _ (linked.clients row member)
  transfers := linked.transfers

theorem Tables.Linked.fewer {rows : List TransferClientRow} (linked : tables.Linked registered)
    (fewer : ∀ row ∈ rows, row ∈ tables.transferClients) :
    Tables.Linked registered { tables with transferClients := rows } where
  creators := linked.creators
  clients := fun row member => linked.clients row (fewer row member)
  transfers := fun row member => linked.transfers row (fewer row member)

/-- A transfer and its clients' rows are deleted. -/
def Tables.without (tables : Tables) (tId : TransferId) : Tables := { tables with
  transfers := tables.transfers.filter (·.transferId ≠ tId)
  transferClients := tables.transferClients.filter (·.transferId ≠ tId) }

theorem Tables.Linked.without (linked : tables.Linked registered) (tId : TransferId) :
    (tables.without tId).Linked registered where
  creators := fun row member => linked.creators row (List.mem_filter.mp member).1
  clients := fun row member => linked.clients row (List.mem_filter.mp member).1
  transfers := fun row member => by
    obtain ⟨held, ne⟩ := List.mem_filter.mp member
    obtain ⟨transfer, found, same⟩ := linked.transfers row held
    exact ⟨transfer, List.mem_filter.mpr ⟨found, by rwa [same]⟩, same⟩

theorem Database.exec_works (works : ∀ n, db.outcome n = none) (change : Tables → Tables) :
    db.exec (fun tables => some (change tables)) =
      (true, { db.tick.2 with tables := change db.tables }) := by
  simp [exec, tick, works]

namespace Database.Sane

theorem weaken (sane : db.Sane registered) (weaker : ∀ id, registered id → other id) :
    db.Sane other :=
  ⟨sane.works, sane.linked.weaken weaker, sane.positive⟩

theorem fades (sane : db.Sane registered) (fades : db.Fades next)
    (linked : next.tables.Linked other) : next.Sane other :=
  ⟨fades.outcome ▸ sane.works, linked,
    fun row member => sane.positive row (fades.rows.transfers row member)⟩

theorem ticked (sane : db.Sane registered) : db.tick.2.Sane registered :=
  ⟨sane.works, sane.linked, sane.positive⟩

end Database.Sane

theorem dbCleanupTransfer_works (works : ∀ n, db.outcome n = none) (tId : TransferId) :
    (dbCleanupTransfer db tId).tables = db.tables.without tId := by
  unfold dbCleanupTransfer
  rw [Database.exec_works works]
  dsimp only
  rw [Database.exec_works (by exact works)]
  rfl

theorem dbClientDelete_works (works : ∀ n, db.outcome n = none) (cId : ClientId) :
    (dbClientDelete db cId).tables = { db.tables with
      transferClients := db.tables.transferClients.filter (·.clientId ≠ cId) } := by
  unfold dbClientDelete
  rw [Database.exec_works works]

theorem dbClientAccept_works (works : ∀ n, db.outcome n = none) (cId : ClientId)
    (tId : TransferId) (accept : Bool) :
    (dbClientAccept db cId tId accept).tables = { db.tables with
      transferClients := db.tables.transferClients.map fun row =>
        if row.clientId = cId ∧ row.transferId = tId
        then { row with accepted := if accept then 1 else 0 } else row } := by
  unfold dbClientAccept
  rw [Database.exec_works works]

namespace Database.Sane

theorem cleanupTransfer (sane : db.Sane registered) (tId : TransferId) :
    (dbCleanupTransfer db tId).Sane registered := by
  refine sane.fades (.cleanupTransfer db tId) ?_
  rw [dbCleanupTransfer_works sane.works]
  exact sane.linked.without tId

theorem clientDelete (sane : db.Sane registered) (cId : ClientId) :
    (dbClientDelete db cId).Sane registered := by
  refine sane.fades (.clientDelete db cId) ?_
  rw [dbClientDelete_works sane.works]
  exact sane.linked.fewer fun row member => (List.mem_filter.mp member).1

theorem clientAccept (sane : db.Sane registered) (cId : ClientId) (tId : TransferId)
    (accept : Bool) : (dbClientAccept db cId tId accept).Sane registered := by
  have fades := Database.Fades.clientAccept db cId tId accept
  refine sane.fades fades ?_
  refine ⟨fun row member => sane.linked.creators row (fades.rows.transfers row member),
    fun row member => ?_, fun row member => ?_⟩ <;>
    obtain ⟨old, held, transfer, client⟩ := fades.rows.clients row member
  · exact client ▸ sane.linked.clients old held
  · rw [dbClientAccept_works sane.works]
    exact transfer ▸ sane.linked.transfers old held

end Database.Sane

namespace Database.Continues

theorem ticked (db : Database) : db.Continues db.tick.2 := ⟨rfl, rfl⟩

theorem cleanupTransfer (db : Database) (tId : TransferId) :
    db.Continues (dbCleanupTransfer db tId) := by
  have first := exec db fun tables => some { tables with
    transferClients := tables.transferClients.filter (·.transferId ≠ tId) }
  have second (next : Database) := exec next fun tables => some { tables with
    transfers := tables.transfers.filter (·.transferId ≠ tId) }
  exact first.trans (second _)

theorem clientDelete (db : Database) (cId : ClientId) : db.Continues (dbClientDelete db cId) :=
  exec db _

theorem clientAccept (db : Database) (cId : ClientId) (tId : TransferId) (accept : Bool) :
    db.Continues (dbClientAccept db cId tId accept) :=
  exec db _

end Database.Continues

end Statements

/-! The bodies of the transactions -/

section Bodies

variable {registered : ClientId → Prop} {db : Database} {s : Server} {c : Slot}

theorem cancelTransferPlan_continues (s : Server) (c : Slot) (db : Database) (tId : TransferId) :
    db.Continues (cancelTransferPlan s c db tId).2 := by
  simp only [cancelTransferPlan, dbGetClientAll_snd]
  exact (Database.Continues.ticked db).trans (.cleanupTransfer _ _)

theorem cancelBody_continues (s : Server) (c : Slot) (db : Database) :
    db.Continues (cancelBody s c db).2 := by
  have opened := Database.Continues.ticked db
  simp only [cancelBody, dbGetTransfer_snd, dbGetCreator_snd]
  split
  · exact opened.trans (cancelTransferPlan_continues ..)
  · split
    · exact opened.trans (.ticked _)
    · exact (opened.trans (.ticked _)).trans (.clientDelete _ _)

theorem cancels_continue (s : Server) (c : Slot) (ids : List TransferId) (db : Database) :
    db.Continues (foldPlan (cancelTransferPlan s c) db ids).2 := by
  induction ids generalizing db with
  | nil => exact ⟨rfl, rfl⟩
  | cons tId rest ih => exact (cancelTransferPlan_continues ..).trans (ih _)

theorem disconnectBody_continues (s : Server) (c : Slot) (db : Database) :
    db.Continues (disconnectBody s c db).2 := by
  simp only [disconnectBody, dbGetTransfer_snd, dbGetCreator_snd]
  have cancelled := (Database.Continues.ticked db).trans
    (cancels_continue s c (dbGetTransfer db (s.client c).id).1 _)
  exact (cancelled.trans (.ticked _)).trans (.clientDelete _ _)

/-- Where every statement works a transaction runs its body and is closed. -/
theorem inTransaction_works {body : Database → Plan × Database}
    (continues : ∀ db : Database, db.Continues (body db).2) (works : ∀ n, db.outcome n = none)
    (closed : db.saved = none) :
    (inTransaction body db).2 =
      { (body { db.tick.2 with saved := some db.tables }).2.tick.2 with saved := none } := by
  have begun : dbTransaction db .begin = (true, { db.tick.2 with saved := some db.tables }) := by
    rw [dbTransaction_begin, if_pos ⟨works _, closed⟩]
  have kept := continues { db.tick.2 with saved := some db.tables }
  simp only [inTransaction, begun, if_true]
  rw [dbTransaction_commit, if_pos ⟨by rw [kept.outcome]; exact works _, by rw [kept.saved]; rfl⟩]

theorem Database.Sane.inTransaction {other : ClientId → Prop} {body : Database → Plan × Database}
    (sane : db.Sane registered) (closed : db.saved = none)
    (continues : ∀ db : Database, db.Continues (body db).2)
    (keeps : ∀ db : Database, db.Sane registered → (body db).2.Sane other) :
    (Quickshare.inTransaction body db).2.Sane other ∧
      (Quickshare.inTransaction body db).2.saved = none := by
  rw [inTransaction_works continues sane.works closed]
  have kept := keeps { db.tick.2 with saved := some db.tables }
    ⟨sane.works, sane.linked, sane.positive⟩
  exact ⟨⟨kept.works, kept.linked, kept.positive⟩, rfl⟩

theorem Database.Sane.cancelTransfer (sane : db.Sane registered) (tId : TransferId) :
    (cancelTransferPlan s c db tId).2.Sane registered := by
  simp only [cancelTransferPlan, dbGetClientAll_snd]
  exact sane.ticked.cleanupTransfer tId

theorem Database.Sane.cancelBody (sane : db.Sane registered) :
    (Quickshare.cancelBody s c db).2.Sane registered := by
  simp only [Quickshare.cancelBody, dbGetTransfer_snd, dbGetCreator_snd]
  split
  · exact sane.ticked.cancelTransfer _
  · split
    · exact sane.ticked.ticked
    · exact sane.ticked.ticked.clientDelete _

/-- The cursor over a client's transfers returns all of them. -/
theorem Database.Sane.getTransfer (sane : db.Sane registered) {row : TransferRow}
    (member : row ∈ db.tables.transfers) : row.transferId ∈ (dbGetTransfer db row.creatorId).1 := by
  have read : (dbGetTransfer db row.creatorId).1 =
      ((db.tables.transfers.filter (·.creatorId = row.creatorId)).map
        TransferRow.transferId).takeWhile (· ≠ 0) := by
    simp [dbGetTransfer, select, tick, sane.works]
  have whole : ((db.tables.transfers.filter (·.creatorId = row.creatorId)).map
      TransferRow.transferId).takeWhile (· ≠ 0) = _ := List.takeWhile_eq_self_iff.mpr fun id held => by
    obtain ⟨other, found, rfl⟩ := List.mem_map.mp held
    have positive := sane.positive other (List.mem_filter.mp found).1
    simp only [decide_not, Bool.not_eq_true', decide_eq_false_iff_not]
    rintro zero
    rw [zero] at positive
    exact absurd positive (by decide)
  rw [read, whole]
  exact List.mem_map_of_mem (List.mem_filter.mpr ⟨member, by simp⟩)

/-- Cancelling deletes each of the transfers. -/
theorem cancels_delete (ids : List TransferId) (sane : db.Sane registered) :
    ∀ row ∈ (foldPlan (cancelTransferPlan s c) db ids).2.tables.transfers, row.transferId ∉ ids := by
  induction ids generalizing db with
  | nil => simp
  | cons tId rest ih =>
    intro row member
    have later := ih (sane.cancelTransfer tId) row member
    have faded := (fades_rule.foldPlan (fades_rule.cancelTransferPlan s c)
      (cancelTransferPlan s c db tId).2 rest).rows.transfers row member
    have gone : (cancelTransferPlan s c db tId).2.tables = db.tables.without tId := by
      simp only [cancelTransferPlan, dbGetClientAll_snd]
      exact dbCleanupTransfer_works sane.ticked.works tId
    rw [gone] at faded
    have ne := (List.mem_filter.mp faded).2
    simp only [List.mem_cons, not_or]
    exact ⟨by simpa using ne, later⟩

theorem Database.Sane.cancels (sane : db.Sane registered) (ids : List TransferId) :
    (foldPlan (cancelTransferPlan s c) db ids).2.Sane registered := by
  induction ids generalizing db with
  | nil => exact sane
  | cons tId rest ih => exact ih (sane.cancelTransfer tId)

/-- A disconnect leaves no row of its client. -/
theorem Database.Sane.disconnectBody (sane : db.Sane registered) :
    (Quickshare.disconnectBody s c db).2.Sane fun id => registered id ∧ id ≠ (s.client c).id := by
  let ids := (dbGetTransfer db (s.client c).id).1
  have cancelled : (foldPlan (cancelTransferPlan s c) db.tick.2 ids).2.Sane registered :=
    sane.ticked.cancels ids
  have deleted := cancels_delete (s := s) (c := c) ids sane.ticked
  have faded := fades_rule.foldPlan (fades_rule.cancelTransferPlan s c) db.tick.2 ids
  have whole : (Quickshare.disconnectBody s c db).2 = dbClientDelete
      (foldPlan (cancelTransferPlan s c) db.tick.2 ids).2.tick.2 (s.client c).id := by
    simp only [Quickshare.disconnectBody, dbGetTransfer_snd, dbGetCreator_snd, ids]
  rw [whole]
  refine cancelled.ticked.fades (.clientDelete _ _) ?_
  rw [dbClientDelete_works cancelled.ticked.works]
  refine ⟨fun row member => ⟨cancelled.linked.creators row member, fun same => ?_⟩,
    fun row member => ?_, fun row member => ?_⟩
  · refine deleted row member ?_
    have listed := sane.getTransfer (faded.rows.transfers row member)
    rwa [same] at listed
  · obtain ⟨held, ne⟩ := List.mem_filter.mp member
    exact ⟨cancelled.linked.clients row held, by simpa using ne⟩
  · exact cancelled.linked.transfers row (List.mem_filter.mp member).1

end Bodies

/-! Packets and disconnects -/

section Packets

variable {registered : ClientId → Prop} {s t : Server} {c : Slot} {db : Database}

/-- A sane database with no transaction open. -/
structure Database.Settled (registered : ClientId → Prop) (db : Database) : Prop
    extends db.Sane registered where
  closed : db.saved = none

theorem Database.Settled.ticked (settled : db.Settled registered) : db.tick.2.Settled registered :=
  ⟨settled.toSane.ticked, settled.closed⟩

theorem Database.Settled.same {next : Database} (settled : db.Settled registered)
    (same : db.SameTransfers next) : next.Settled registered where
  works := same.outcome ▸ settled.works
  linked := ⟨same.transfers ▸ settled.linked.creators, same.clients ▸ settled.linked.clients,
    by rw [same.clients, same.transfers]; exact settled.linked.transfers⟩
  positive := same.transfers ▸ settled.positive
  closed := same.saved.trans settled.closed

theorem Sends.settled {plan : Plan} {r : Run Server} (sends : Sends s plan db r)
    (settled : db.Settled registered) :
    Ends (fun t => t.db.Settled registered) (fun _ => True) r := by
  cases r with
  | ok t =>
    have left := sends.db_ok
    subst left
    exact settled
  | error failed => trivial

theorem packetIntro_settled (settled : s.db.Settled registered) :
    Ends (fun t => t.db.Settled registered) (fun _ => True) (packetIntro s c) := by
  rw [packetIntro_eq]
  by_cases abnormal : (s.client c).state = .complete ∨
      (s.client c).decryptBuf.packet.introSession > 1
  · rw [if_pos abnormal]
    exact (serverResponse_sends s c .serverDeny).settled settled
  · rw [if_neg abnormal]
    have opened := settled.same (introduced_transfers s c)
    generalize s.introduced c = session at opened ⊢
    generalize (terminateIntro (s.client c).decryptBuf.packet).introName = name
    let s' : Server := { s.terminated c with db := session.2 }
    have answered (type : PacketType) := (serverResponse_sends s' c type).settled opened
    dsimp only
    split
    · exact answered .serverDeny
    · exact (answered .serverOk).bind fun t kept =>
        (sendSessionUsers_sends (t.completed c session.1 name) c).settled kept

/-- A request of registered clients to registered clients is recorded soundly. -/
theorem Database.Settled.grants {cId : ClientId} {recipients : List ClientId} {tId : TransferId}
    {next : Database} (settled : db.Settled registered) (grants : db.Grants cId recipients tId next)
    (creator : registered cId) (members : ∀ id ∈ recipients, registered id) :
    next.Settled registered where
  works := grants.outcome ▸ settled.works
  linked := by
    have transfers := grants.transfers
    refine ⟨fun row member => ?_, fun row member => ?_, fun row member => ?_⟩
    · rw [transfers, List.mem_append, List.mem_singleton] at member
      rcases member with old | rfl
      · exact settled.linked.creators row old
      · exact creator
    · rw [grants.clients, List.mem_append, List.mem_map] at member
      rcases member with old | ⟨id, named, rfl⟩
      · exact settled.linked.clients row old
      · exact members id named
    · rw [transfers]
      rw [grants.clients, List.mem_append, List.mem_map] at member
      rcases member with old | ⟨id, -, rfl⟩
      · obtain ⟨transfer, found, same⟩ := settled.linked.transfers row old
        exact ⟨transfer, List.mem_append_left _ found, same⟩
      · exact ⟨⟨tId, cId⟩, List.mem_append_right _ (List.mem_singleton_self _), rfl⟩
  positive := fun row member => by
    rw [grants.transfers, List.mem_append, List.mem_singleton] at member
    rcases member with old | rfl
    · exact settled.positive row old
    · rcases nextRowid_some grants.rowid with ⟨-, rfl⟩ | ⟨last, listed, -, succ⟩
      · exact Int64.le_refl 1
      · obtain ⟨row, held, rfl⟩ := List.mem_map.mp listed
        have positive := settled.positive row held
        rw [Int64.le_iff_toInt_le] at positive ⊢
        dsimp only
        omega
  closed := grants.saved

theorem packetTransfer_settled (settled : s.db.Settled registered)
    (request : (s.client c).decryptBuf.packet.type? = some .transferRequest)
    (members : s.granted c →
      registered (s.client c).id ∧ ∀ id ∈ s.requested c, registered id) :
    Ends (fun t => t.db.Settled registered) (fun _ => True) (packetTransfer s c) := by
  have begun : s.begun.1 = true := by
    rw [Server.begun, dbTransaction_begin, if_pos ⟨settled.works _, settled.closed⟩]
  by_cases recorded : (s.recorded c).1 = true
  · obtain ⟨creator, recipients⟩ := members ⟨request, begun, recorded⟩
    exact (packetTransfer_granted begun recorded).settled
      (settled.grants (recorded_grants begun recorded) creator recipients)
  · have refused : (s.recorded c).1 = false := by simpa using recorded
    obtain ⟨tables, closed, outcome⟩ := refused_tables begun refused
    obtain ⟨r, sends, same⟩ := packetTransfer_refused begun refused
    rw [same]
    have kept : Database.Settled registered (dbTransaction (s.recorded c).2.2 .rollback).2 :=
      ⟨⟨outcome ▸ settled.works, tables ▸ settled.linked, tables ▸ settled.positive⟩, closed⟩
    refine (sends.settled kept).bind fun t ends => ?_
    generalize (debugTransfer (s.client c).decryptBuf.packet).inside = inside
    cases inside
    · trivial
    · exact ends

theorem packetReply_settled (settled : s.db.Settled registered) :
    Ends (fun t => t.db.Settled registered) (fun _ => True) (packetReply s c) := by
  by_cases gone : s.creatorGone c
  · rw [packetReply_gone gone]
    trivial
  · refine (packetReply_sends gone).settled ?_
    simp only [replyPlan, replyCreator, dbGetCreatorByTid_snd]
    refine Database.Settled.ticked ⟨settled.toSane.clientAccept _ _ _, ?_⟩
    exact (Database.Continues.clientAccept s.db _ _ _).saved.trans settled.closed

theorem completePlan_settled (settled : s.db.Settled registered) :
    (completePlan s c).2.Settled registered := by
  simp only [completePlan, relayPlan, dbGetTransfer_snd, dbGetClientAllAccepted_snd]
  split
  · exact ⟨settled.ticked.ticked.toSane.cleanupTransfer _,
      (Database.Continues.cleanupTransfer _ _).saved.trans settled.closed⟩
  · exact settled.ticked

/-- Only a reply to a creator that is gone fails the assertion of `packet_reply`. -/
theorem analizePacket_fault (present : ¬ s.creatorGone c) :
    Ends (fun _ => True) (fun failed => failed.1 ≠ .creator) (analizePacket s c) := by
  have sent {s : Server} {plan : Plan} {db : Database} {r : Run Server} (sends : Sends s plan db r) :
      Ends (fun _ => True) (fun failed => failed.1 ≠ .creator) r :=
    sends.fault.mono (fun _ _ _ => trivial) fun failed full same => by
      rw [full] at same
      cases same
  unfold analizePacket
  cases type : (s.client c).decryptBuf.packet.type? with
  | none => trivial
  | some kind =>
    cases kind with
    | clientIntro =>
      simp only
      rw [packetIntro_eq]
      by_cases abnormal : (s.client c).state = .complete ∨
          (s.client c).decryptBuf.packet.introSession > 1
      · rw [if_pos abnormal]
        exact sent (serverResponse_sends s c .serverDeny)
      · rw [if_neg abnormal]
        generalize s.introduced c = session
        generalize (terminateIntro (s.client c).decryptBuf.packet).introName = name
        dsimp only
        split
        · exact sent (serverResponse_sends _ c .serverDeny)
        · exact (sent (serverResponse_sends _ c .serverOk)).bind fun t _ =>
            sent (sendSessionUsers_sends _ c)
    | transferRequest =>
      by_cases begun : s.begun.1 = true
      · by_cases recorded : (s.recorded c).1 = true
        · exact sent (packetTransfer_granted begun recorded)
        · obtain ⟨r, sends, same⟩ := packetTransfer_refused begun (by simpa using recorded)
          simp only [same]
          refine (sent sends).bind fun t _ => ?_
          generalize (debugTransfer (s.client c).decryptBuf.packet).inside = inside
          cases inside
          · exact nofun
          · trivial
      · exact sent (packetTransfer_busy (by simpa using begun))
    | transferReply => exact sent (packetReply_sends present)
    | transferData => exact sent (packetData_sends s c)
    | transferComplete => exact sent (packetComplete_sends s c)
    | transferCancel => exact sent (packetCancel_sends s c)
    | _ => trivial

/-- A packet keeps the rows linked unless a stranger's request is granted. -/
theorem analizePacket_settled (settled : s.db.Settled registered)
    (members : s.granted c →
      registered (s.client c).id ∧ ∀ id ∈ s.requested c, registered id) :
    Ends (fun t => t.db.Settled registered) (fun _ => True) (analizePacket s c) := by
  unfold analizePacket
  cases type : (s.client c).decryptBuf.packet.type? with
  | none => exact settled
  | some kind =>
    cases kind with
    | clientIntro => exact packetIntro_settled settled
    | transferRequest => exact packetTransfer_settled settled type members
    | transferReply => exact packetReply_settled settled
    | transferData =>
      refine (packetData_sends s c).settled ?_
      simp only [dataPlan, relayPlan, dbGetClientAllAccepted_snd]
      exact settled.ticked
    | transferComplete => exact (packetComplete_sends s c).settled (completePlan_settled settled)
    | transferCancel =>
      obtain ⟨sane, closed⟩ := settled.toSane.inTransaction settled.closed
        (cancelBody_continues s c) fun db sane => sane.cancelBody
      exact (packetCancel_sends s c).settled ⟨sane, closed⟩
    | _ => exact settled

end Packets

section Server

variable {s t : Server} {c i : Slot} {fd : Int}

/-- Some client in a session has this id. -/
def Server.registered (s : Server) (id : ClientId) : Prop :=
  ∃ i, (s.client i).state = .complete ∧ (s.client i).id = id

instance (s : Server) (id : ClientId) : Decidable (s.registered id) := by
  unfold Server.registered
  infer_instance

/-- The rows are of connected clients in a session, and of transfers. -/
def Server.Integrity (s : Server) : Prop := s.db.tables.Linked s.registered

/-- A request that is granted and whose packets find room comes from a client,
and names clients, in a session. -/
def membersOnly (s : Server) (e : Event) : Prop :=
  ∀ c t, s.delivers e = some (c, t) → t.granted c →
    t.Fits (grantPlan t c (t.client c).decryptBuf.packet (t.recorded c).2.1) →
    t.registered (t.client c).id ∧ ∀ id ∈ t.requested c, t.registered id

/-- The assertion of `packet_reply` does not fail. -/
def creatorKnown (s : Server) (e : Event) : Prop := Run.fault? (step s e) ≠ some .creator

theorem Server.registered_of {id : ClientId} (held : s.registered id)
    (kept : ∀ i, (s.client i).state = .complete → (s.client i).id = id →
      (t.client i).state = .complete ∧ (t.client i).id = id) : t.registered id := by
  obtain ⟨i, complete, same⟩ := held
  exact ⟨i, kept i complete same⟩

theorem Handled.registered {id : ClientId} (handled : Handled c s t) (held : s.registered id) :
    t.registered id :=
  held.imp fun i ⟨complete, same⟩ => by
    rcases handled.state i with ⟨kept, -⟩ | ⟨-, here, -⟩
    · exact ⟨kept.trans complete, (handled.id i).trans same⟩
    · exact ⟨here, (handled.id i).trans same⟩

theorem SameClients.registered (same : SameClients s t) (id : ClientId) :
    t.registered id ↔ s.registered id := by
  simp only [Server.registered, same.state, same.id]

/-- What the rows rely on. -/
def Server.Settled (s : Server) : Prop := s.db.Settled s.registered

theorem Server.Settled.modify (settled : s.Settled) (f : Client → Client)
    (kept : (s.client i).state = .complete →
      (f (s.client i)).state = .complete ∧ (f (s.client i)).id = (s.client i).id) :
    (s.modify i f).Settled := by
  refine ⟨settled.toSane.weaken fun id held => Server.registered_of held fun j complete same => ?_,
    settled.closed⟩
  by_cases here : j = i
  · subst here
    rw [client_modify_self]
    exact ⟨(kept complete).1, (kept complete).2.trans same⟩
  · rw [client_modify_of_ne _ _ here]
    exact ⟨complete, same⟩

/-- Closing a client that leaves no rows keeps the others' rows linked. -/
theorem Server.closed_settled (found : clientFind s.clients fd = some c)
    (sane : s.db.Sane fun id => s.registered id ∧ ((s.client c).state = .complete →
      id ≠ (s.client c).id)) (none : s.db.saved = none) : (s.closed fd).Settled := by
  refine ⟨sane.weaken fun id held => Server.registered_of held.1 fun i complete same => ?_, none⟩
  have other : clientFind s.clients fd ≠ some i := fun here => by
    obtain rfl : c = i := Option.some.inj (found.symm.trans here)
    exact held.2 complete same.symm
  have kept : (s.closed fd).client i = s.client i := clientClose_of_ne other
  rw [kept]
  exact ⟨complete, same⟩

theorem closeClient_settled (settled : s.Settled) (fd : Int) (deleted : Bool) :
    Ends Server.Settled (fun _ => True) (closeClient s fd deleted) := by
  rw [closeClient_eq]
  by_cases known : deleted = true ∧ fd ∈ s.epoll
  · rw [if_pos known]
    dsimp only
    cases found : clientFind s.clients fd with
    | none => exact settled
    | some c =>
      have sends := leaveSession_sends { s with epoll := s.epoll.erase fd } c
      have left : (leavingPlan { s with epoll := s.epoll.erase fd } c).2.Settled fun id =>
          s.registered id ∧ ((s.client c).state = .complete → id ≠ (s.client c).id) := by
        unfold leavingPlan
        by_cases complete : (s.client c).state = .complete
        · rw [if_pos (show (Server.client { s with epoll := s.epoll.erase fd } c).state = .complete
            from complete)]
          have closed : s.db.saved = none := Database.Settled.closed settled
          obtain ⟨sane, closed⟩ := settled.toSane.inTransaction closed
            (disconnectBody_continues { s with epoll := s.epoll.erase fd } c)
            fun db sane => sane.disconnectBody
          exact ⟨sane.weaken fun id held => ⟨held.1, fun _ => held.2⟩, closed⟩
        · rw [if_neg (show ¬ (Server.client { s with epoll := s.epoll.erase fd } c).state = .complete
            from complete)]
          exact ⟨settled.toSane.weaken fun id held => ⟨held, fun here => absurd here complete⟩,
            Database.Settled.closed settled⟩
      dsimp only
      cases ended : leaveSession { s with epoll := s.epoll.erase fd } c with
      | error failed => trivial
      | ok t =>
        rw [ended] at sends
        have same := sends.same_ok
        have db := sends.db_ok
        rw [← db] at left
        have here : clientFind t.clients fd = some c := (same.find fd).trans found
        have sane := left.toSane.weaken fun id held =>
          show t.registered id ∧ ((t.client c).state = .complete → id ≠ (t.client c).id) by
            rw [same.registered, same.state, same.id]
            exact held
        exact Server.closed_settled here sane left.closed
  · rw [if_neg known]
    exact settled

theorem settled_rule : PacketRule Server.Settled fun failed => failed.1 ≠ .creator where
  fail := fun s fault other _ same => by
    rw [show fault = .creator from same] at other
    cases other
  drain := fun s i d settled drains => settled.modify (fun _ => d) fun complete => by
    rw [drains.rest]
    exact ⟨complete, rfl⟩
  close := fun s fd deleted settled =>
    ((closeClient_settled settled fd deleted).and (closeClient_fault s fd deleted)).mono
      (fun _ _ ends => ends.1) fun failed ends same => by rw [ends.2] at same; cases same
  frame := fun s _ _ settled => settled
  setFd := fun s i fd settled => settled.modify _ fun complete => ⟨complete, rfl⟩
  secured := fun s i settled connected => settled.modify _ fun complete => by
    rw [connected] at complete
    cases complete
  received := fun s c buf settled => settled.modify _ fun complete => ⟨complete, rfl⟩
  called := fun _ _ settled => settled

theorem Server.Settled.take {clients : ClientList} {now : ClientId} {ssl : Ssl}
    (settled : s.Settled) (done : clientInit s.clients now ssl = some (i, clients)) :
    Server.Settled { s with clients } := by
  obtain ⟨empty, rfl⟩ := clientInit_some done
  have taken : (s.modify i (clientConfigure now ssl)).Settled :=
    settled.modify (i := i) _ fun complete => by
      rw [Server.client, empty] at complete
      cases complete
  exact taken

/-- Handling a packet keeps the rows linked or stops the server. -/
theorem Server.Settled.analizePacket (settled : s.Settled) (bounded : s.Bounded)
    (members : s.granted c → s.Fits (grantPlan s c (s.client c).decryptBuf.packet (s.recorded c).2.1) →
      s.registered (s.client c).id ∧ ∀ id ∈ s.requested c, s.registered id) :
    Ends Server.Settled (fun _ => True) (Quickshare.analizePacket s c) := by
  by_cases stops : s.granted c ∧
      ¬ s.Fits (grantPlan s c (s.client c).decryptBuf.packet (s.recorded c).2.1)
  · obtain ⟨⟨request, begun, recorded⟩, large⟩ := stops
    rcases (packetTransfer_granted begun recorded).cases bounded with ⟨fits, -⟩ | ⟨-, t, failed⟩
    · exact absurd fits large
    · simp only [Quickshare.analizePacket, request]
      rw [failed]
      trivial
  · have kept := analizePacket_settled settled fun granted =>
      members granted (by_contra fun large => stops ⟨granted, large⟩)
    have handled := analizePacket_touches s c
    cases ended : Quickshare.analizePacket s c with
    | error failed => trivial
    | ok t =>
      rw [ended] at kept handled
      have touched : Handled c s t := handled
      exact ⟨kept.toSane.weaken fun id held => touched.registered held, kept.closed⟩

/-- The creator a reply looks up is connected. -/
theorem Server.Settled.creatorKnown (settled : s.Settled) : ¬ s.creatorGone c := by
  rintro ⟨found, missing⟩
  have row := dbGetCreatorByTid_row found
  rw [dbClientAccept_works settled.works] at row
  obtain ⟨i, complete, same⟩ := settled.linked.creators _ row
  have live : (s.clients.list i).state ≠ .empty := by
    rw [show (s.clients.list i).state = .complete from complete]
    simp
  exact clientFindById_none missing i live same

theorem Server.Settled.step (settled : s.Settled) (valid : s.QueuesValid) {e : Event}
    (members : membersOnly s e) :
    Ends Server.Settled (fun failed => failed.1 ≠ .creator) (Quickshare.step s e) := by
  refine settled_rule.step settled e (fun _ _ _ _ _ _ taken => settled.take taken)
    fun c t delivers settled => ?_
  have bounded : t.Bounded := by
    obtain ⟨fd, chunk, buf, -, -, rfl⟩ := delivers_received delivers
    have received : (s.received c buf).QueuesValid := valid.modify _ (valid c)
    exact received.bounded
  have kept := settled.analizePacket bounded (members c t delivers)
  exact (kept.and (analizePacket_fault settled.creatorKnown)).mono (fun _ _ ends => ends.1)
    fun _ ends => ends.2

/-- What keeps the rows linked. -/
structure Server.Recording (s : Server) : Prop where
  settled : s.Settled
  queues : s.QueuesValid

/-- A granted request of or to a stranger leaves a row of nobody. -/
theorem step_of_not_membersOnly {e : Event} (recording : s.Recording) (missed : ¬ membersOnly s e) :
    ∃ t, step s e = .ok t ∧ ¬ t.Integrity := by
  simp only [membersOnly, not_forall] at missed
  obtain ⟨c, t, delivers, granted, fits, stranger⟩ := missed
  have bounded : t.Bounded := by
    obtain ⟨fd, chunk, buf, -, -, rfl⟩ := delivers_received delivers
    have received : (s.received c buf).QueuesValid :=
      recording.queues.modify _ (recording.queues c)
    exact received.bounded
  have sends := packetTransfer_granted granted.2.1 granted.2.2
  have grants := recorded_grants granted.2.1 granted.2.2
  have handled : analizePacket t c = packetTransfer t c := by
    simp only [analizePacket, granted.1]
  rcases sends.cases bounded with ⟨-, u, ended⟩ | ⟨large, -⟩
  · refine ⟨u.rewound c, by rw [step_delivers delivers, handled, ended]; rfl, fun linked => ?_⟩
    rw [ended] at sends
    have same : ∀ id, (u.rewound c).registered id → t.registered id := by
      intro id held
      have clients := sends.same_ok
      have before : u.registered id := Server.registered_of held fun i complete here => by
        by_cases self : i = c
        · subst self
          rw [Server.rewound, Server.client_modify_self] at complete here
          exact ⟨complete, here⟩
        · rw [Server.rewound, Server.client_modify_of_ne _ _ self] at complete here
          exact ⟨complete, here⟩
      exact (clients.registered id).mp before
    have db : (u.rewound c).db = (t.recorded c).2.2 := sends.db_ok
    have creators := linked.creators
    have clients := linked.clients
    rw [db, grants.transfers] at creators
    rw [db, grants.clients] at clients
    refine stranger ⟨same _ (creators ⟨(t.recorded c).2.1, (t.client c).id⟩ (by simp)), fun id named => ?_⟩
    exact same _ (clients ⟨(t.recorded c).2.1, id, -1⟩ (by simp [named]))
  · exact absurd fits large

/-- A database without transfers whose statements all succeed. -/
def Database.idle (sessions : List SessionRow) : Database :=
  { Database.fresh with tables := ⟨sessions, [], []⟩ }

theorem Server.Recording.step (recording : s.Recording) {e : Event} (members : membersOnly s e) :
    Ends Server.Recording (fun failed => failed.1 ≠ .creator) (Quickshare.step s e) := by
  have settled := recording.settled.step recording.queues members
  have queues := recording.queues.step e
  cases ended : Quickshare.step s e with
  | ok t =>
    rw [ended] at settled queues
    exact ⟨settled, queues⟩
  | error failed =>
    rw [ended] at settled
    exact settled

theorem init_recording (sessions : List SessionRow) :
    (Server.init (.idle sessions)).Recording where
  settled := ⟨⟨fun _ => rfl, ⟨nofun, nofun, nofun⟩, nofun⟩, rfl⟩
  queues := init_queuesValid _

/-- Along every run that starts without transfers and whose statements succeed,
the rows are linked and the assertion of `packet_reply` holds exactly if every
request granted, and answered, comes from a client and names clients in a session. -/
theorem integrity_iff (sessions : List SessionRow) (events : List Event) :
    (Throughout step Server.Integrity (Server.init (.idle sessions)) events ∧
      Guarded step creatorKnown (Server.init (.idle sessions)) events) ↔
    Guarded step membersOnly (Server.init (.idle sessions)) events := by
  have start := init_recording sessions
  have keep (s : Server) (e : Event) (t : Server) (recording : s.Recording) (members : membersOnly s e)
      (taken : step s e = .ok t) : t.Recording := by
    have kept := recording.step members
    rwa [taken] at kept
  have integrity : Throughout step Server.Integrity (Server.init (.idle sessions)) events ↔
      Guarded step membersOnly (Server.init (.idle sessions)) events :=
    throughout_iff_guarded start keep (fun s recording => recording.settled.linked)
      fun s e recording missed => step_of_not_membersOnly recording missed
  refine ⟨fun both => integrity.mp both.1, fun guarded => ⟨integrity.mpr guarded, ?_⟩⟩
  refine guarded.transfer start keep fun s e recording members => ?_
  have kept := recording.step members
  unfold creatorKnown
  cases ended : step s e with
  | ok t => exact nofun
  | error failed =>
    rw [ended] at kept
    exact fun same => kept (Option.some.inj same)

end Server

/-- Of two clients without a session the first sends the second a request and
leaves; then the second replies. -/
def strangersRun : List Event :=
  connects 4 100 ++ connects 5 101 ++ packetFrom 4 .transferRequest (requestBody 101) ++
    [.close 4 true] ++ packetFrom 5 .transferReply (acceptBody 1)

theorem integrity_fails : ¬ (Throughout step Server.Integrity (Server.init (.idle [])) strangersRun ∧
    Guarded step creatorKnown (Server.init (.idle [])) strangersRun) := by
  rintro ⟨-, known⟩
  have stopped : Run.fault? (run step (Server.init (.idle [])) strangersRun) = some .creator := by
    decide +kernel
  obtain ⟨t, failed⟩ := Run.fault?_eq_some stopped
  obtain ⟨u, e, held, full⟩ := known.at_fault failed
  exact held (by rw [full]; rfl)

end Quickshare
