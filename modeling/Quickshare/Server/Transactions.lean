import Quickshare.Server.Integrity
import Quickshare.Server.WriteLoop

/-! Open SQL transactions. Three paths open one. `packet_transfer` rolls back
when its `COMMIT` fails; `packet_cancel` and `cancel_transaction` ignore the
result, so there the transaction is closed exactly if SQLite commits it. -/

namespace Quickshare

open Runs

/-- SQLite commits the transaction in which `statements` run, if it opens one. -/
def Database.Commits (db : Database) (statements : Database → Database) : Prop :=
  (dbTransaction db .begin).1 = true →
    (dbTransaction (statements (dbTransaction db .begin).2) .commit).1 = true

/-- The statements of `packet_cancel` between `BEGIN` and `COMMIT`. -/
def cancelStatements (cId : ClientId) (tId : TransferId) (db : Database) : Database :=
  let (ids, db) := dbGetTransfer db cId
  if tId ∈ ids then dbCleanupTransfer (dbGetClientAll db tId).2 tId
  else
    let (infos, db) := dbGetCreator db cId
    match infos.find? (·.tId = tId) with
    | none => db
    | some _ => dbClientDelete db cId

/-- The statements of `cancel_transaction` between `BEGIN` and `COMMIT`. -/
def leaveStatements (cId : ClientId) (db : Database) : Database :=
  let (ids, db) := dbGetTransfer db cId
  let db := ids.foldl (fun db tId => dbCleanupTransfer (dbGetClientAll db tId).2 tId) db
  dbClientDelete (dbGetCreator db cId).2 cId

section Statements

variable {s : Server} {c : Slot} {db : Database}

theorem cancelBody_statements (s : Server) (c : Slot) (db : Database) : (cancelBody s c db).2 =
    cancelStatements (s.client c).id (s.client c).decryptBuf.packet.tId db := by
  simp only [cancelBody, cancelStatements]
  split
  · rfl
  · cases List.find? (fun info => decide (info.tId = (s.client c).decryptBuf.packet.tId))
      (dbGetCreator (dbGetTransfer db (s.client c).id).2 (s.client c).id).1 <;> rfl

theorem disconnectBody_statements (s : Server) (c : Slot) (db : Database) :
    (disconnectBody s c db).2 = leaveStatements (s.client c).id db := by
  have cancelled (db : Database) (ids : List TransferId) :
      (foldPlan (cancelTransferPlan s c) db ids).2 =
        ids.foldl (fun db tId => dbCleanupTransfer (dbGetClientAll db tId).2 tId) db := by
    induction ids generalizing db with
    | nil => rfl
    | cons tId rest ih => exact ih _
  simp only [disconnectBody, leaveStatements, cancelled]

/-- A transaction that continues to its `COMMIT` is closed exactly if that succeeds. -/
theorem inTransaction_closed_iff {body : Database → Plan × Database}
    (continues : ∀ db : Database, db.Continues (body db).2) (closed : db.saved = none) :
    (inTransaction body db).2.saved = none ↔ db.Commits fun db => (body db).2 := by
  unfold inTransaction Database.Commits
  dsimp only
  by_cases begun : (dbTransaction db .begin).1 = true
  · rw [if_pos begun]
    have kept := (continues (dbTransaction db .begin).2).saved
    have opened : (dbTransaction db .begin).2.saved = some db.tables := by
      rw [dbTransaction_begin] at begun ⊢
      split at begun
      · rename_i works
        rw [if_pos works]
      · cases begun
    rw [opened] at kept
    rw [dbTransaction_commit]
    split
    · simp
    · simp [begun, kept]
  · rw [if_neg begun]
    refine iff_of_true ?_ fun started => absurd started begun
    rw [dbTransaction_begin] at begun ⊢
    split at begun
    · exact absurd rfl begun
    · rename_i fails
      rw [if_neg fails]
      exact closed

end Statements

/-! Packets -/

section Packets

variable {s t : Server} {c : Slot} {db : Database} {plan : Plan} {r : Run Server}

/-- The packet `c` has sent is no cancel, or its transaction is committed. -/
def Server.cancelCommits (s : Server) (c : Slot) : Prop :=
  (s.client c).decryptBuf.packet.type? = some .transferCancel →
    s.db.Commits (cancelStatements (s.client c).id (s.client c).decryptBuf.packet.tId)

/-- A computation that succeeds leaves no transaction open exactly if `commits` holds. -/
def ClosedIff (commits : Prop) (r : Run Server) : Prop :=
  Ends (fun t => t.db.saved = none ↔ commits) (fun _ => True) r

theorem Sends.closedIff {commits : Prop} (sends : Sends s plan db r)
    (same : db.saved = none ↔ commits) : ClosedIff commits r := by
  cases r with
  | ok t =>
    have left := sends.db_ok
    subst left
    exact same
  | error failed => trivial

theorem ClosedIff.bind {next : Server → Run Server} (first : ClosedIff True r)
    (after : ∀ t, t.db.saved = none → ClosedIff True (next t)) : ClosedIff True (r.bind next) :=
  Ends.bind first fun t same => after t (same.mpr trivial)

theorem packetIntro_closed (closed : s.db.saved = none) : ClosedIff True (packetIntro s c) := by
  rw [packetIntro_eq]
  by_cases abnormal : (s.client c).state = .complete ∨
      (s.client c).decryptBuf.packet.introSession > 1
  · rw [if_pos abnormal]
    exact (serverResponse_sends s c .serverDeny).closedIff (iff_true_intro closed)
  · rw [if_neg abnormal]
    have kept := (introduced_transfers s c).saved.trans closed
    generalize s.introduced c = opened at kept ⊢
    generalize (terminateIntro (s.client c).decryptBuf.packet).introName = name
    dsimp only
    split
    · exact (serverResponse_sends _ c .serverDeny).closedIff (iff_true_intro kept)
    · refine ((serverResponse_sends _ c .serverOk).closedIff (iff_true_intro kept)).bind
        fun t closed => ?_
      exact (sendSessionUsers_sends _ c).closedIff (iff_true_intro closed)

theorem packetTransfer_closed (closed : s.db.saved = none) :
    ClosedIff True (packetTransfer s c) := by
  by_cases begun : s.begun.1 = true
  · by_cases recorded : (s.recorded c).1 = true
    · exact (packetTransfer_granted begun recorded).closedIff
        (iff_true_intro (recorded_grants begun recorded).saved)
    · have refused : (s.recorded c).1 = false := by simpa using recorded
      obtain ⟨r, sends, same⟩ := packetTransfer_refused begun refused
      rw [same]
      refine (sends.closedIff (iff_true_intro (refused_tables begun refused).2.1)).bind
        fun t closed => ?_
      generalize (debugTransfer (s.client c).decryptBuf.packet).inside = inside
      cases inside
      · trivial
      · exact iff_true_intro closed
  · have busy : s.begun.1 = false := by simpa using begun
    refine (packetTransfer_busy busy).closedIff (iff_true_intro ?_)
    rw [Server.begun, dbTransaction_begin] at busy ⊢
    split at busy
    · cases busy
    · rename_i fails
      rw [if_neg fails]
      exact closed

theorem packetReply_closed (closed : s.db.saved = none) : ClosedIff True (packetReply s c) := by
  by_cases gone : s.creatorGone c
  · rw [packetReply_gone gone]
    trivial
  · refine (packetReply_sends gone).closedIff (iff_true_intro ?_)
    simp only [replyPlan, replyCreator, dbGetCreatorByTid_snd]
    exact (Database.Continues.clientAccept s.db _ _ _).saved.trans closed

theorem packetCancel_closed_iff (closed : s.db.saved = none) :
    ClosedIff (s.db.Commits (cancelStatements (s.client c).id (s.client c).decryptBuf.packet.tId))
      (packetCancel s c) := by
  refine (packetCancel_sends s c).closedIff ?_
  have committed := inTransaction_closed_iff (cancelBody_continues s c) closed
  simp only [cancelBody_statements] at committed
  exact committed

/-- Of all packets only a cancel can leave its transaction open. -/
theorem analizePacket_closed_iff (closed : s.db.saved = none) :
    ClosedIff (s.cancelCommits c) (analizePacket s c) := by
  have other {r : Run Server} (free : ClosedIff True r)
      (ne : (s.client c).decryptBuf.packet.type? ≠ some .transferCancel) :
      ClosedIff (s.cancelCommits c) r :=
    free.mono (fun t _ same => same.trans (iff_of_true trivial fun cancel => absurd cancel ne))
      fun _ _ => trivial
  unfold analizePacket
  cases type : (s.client c).decryptBuf.packet.type? with
  | none => exact other (iff_true_intro closed) (by simp [type])
  | some kind =>
    cases kind with
    | clientIntro => exact other (packetIntro_closed closed) (by simp [type])
    | transferRequest => exact other (packetTransfer_closed closed) (by simp [type])
    | transferReply => exact other (packetReply_closed closed) (by simp [type])
    | transferData =>
      refine other ((packetData_sends s c).closedIff (iff_true_intro ?_)) (by simp [type])
      simp only [dataPlan, relayPlan, dbGetClientAllAccepted_snd]
      exact closed
    | transferComplete =>
      refine other ((packetComplete_sends s c).closedIff (iff_true_intro ?_)) (by simp [type])
      simp only [completePlan, relayPlan, dbGetTransfer_snd, dbGetClientAllAccepted_snd]
      split
      · exact (Database.Continues.cleanupTransfer _ _).saved.trans closed
      · exact closed
    | transferCancel =>
      exact (packetCancel_closed_iff closed).mono
        (fun t _ same => same.trans ⟨fun commits _ => commits, fun commits => commits type⟩)
        fun _ _ => trivial
    | _ => exact other (iff_true_intro closed) (by simp [type])

end Packets

/-! Disconnects -/

section Disconnects

variable {s t : Server} {c i : Slot} {fd : Int} {deleted : Bool}

/-- If `close_client` takes a client out of its session here, the transaction
that deletes its transfers is committed. -/
def Server.leaveCommits (s : Server) (fd : Int) (deleted : Bool) : Prop :=
  deleted = true → fd ∈ s.epoll → ∀ c, clientFind s.clients fd = some c →
    (s.client c).state = .complete → s.db.Commits (leaveStatements (s.client c).id)

theorem leaveSession_closed_iff (closed : s.db.saved = none) :
    ClosedIff ((s.client c).state = .complete → s.db.Commits (leaveStatements (s.client c).id))
      (leaveSession s c) := by
  refine (leaveSession_sends s c).closedIff ?_
  unfold leavingPlan
  split
  · rename_i complete
    have committed := inTransaction_closed_iff (disconnectBody_continues s c) closed
    simp only [disconnectBody_statements] at committed
    exact committed.trans ⟨fun commits _ => commits, fun commits => commits complete⟩
  · rename_i other
    exact iff_of_true closed fun complete => absurd complete other

/-- A close that returns leaves its transaction closed exactly if SQLite commits it. -/
theorem closeClient_closed_iff (closed : s.db.saved = none) :
    ClosedIff (s.leaveCommits fd deleted) (closeClient s fd deleted) := by
  rw [closeClient_eq]
  by_cases known : deleted = true ∧ fd ∈ s.epoll
  · rw [if_pos known]
    dsimp only
    cases found : clientFind s.clients fd with
    | none =>
      refine iff_of_true closed fun _ _ c same => ?_
      rw [found] at same
      cases same
    | some c =>
      have left := leaveSession_closed_iff (s := { s with epoll := s.epoll.erase fd }) (c := c) closed
      refine Ends.bind left fun t ends => ends.trans ⟨fun commits _ _ c' same => ?_, fun commits => ?_⟩
      · obtain rfl : c = c' := Option.some.inj (found.symm.trans same)
        exact commits
      · exact commits known.1 known.2 c found
  · rw [if_neg known]
    exact iff_of_true closed fun first second => absurd ⟨first, second⟩ known

theorem SameSeats.leaveCommits (same : SameSeats s t) :
    t.leaveCommits fd deleted ↔ s.leaveCommits fd deleted := by
  simp only [Server.leaveCommits, same.find, same.epoll, same.state, same.id, same.db]

/-- Once the descriptor cannot be deleted, writing leaves the database alone. -/
theorem unlisted_rule (db : Database) : WriteRuleAt fd deleted
    (fun t => ¬ (deleted = true ∧ fd ∈ t.epoll) ∧ t.db = db) (fun _ => True) where
  fail := fun _ _ _ _ => trivial
  drain := fun _ _ _ held _ => held
  close := fun s held => by
    rw [closeClient_eq, if_neg held.1]
    exact held

theorem writeData_closed_iff (closed : s.db.saved = none) (nodup : s.epoll.Nodup) (env : WriteEnv) :
    ClosedIff (∀ i, clientFind s.clients fd = some i → writeFails (s.client i) env →
      s.leaveCommits fd env.deleted) (writeData s fd env) := by
  unfold writeData
  cases found : clientFind s.clients fd with
  | none => exact iff_of_true closed fun i same => nomatch same
  | some i =>
    dsimp only
    have plain : (∀ j, some i = some j → writeFails (s.client j) env →
        s.leaveCommits fd env.deleted) ↔
          (writeFails (s.client i) env → s.leaveCommits fd env.deleted) :=
      ⟨fun all => all i rfl, fun here j same => by cases same; exact here⟩
    rw [plain]
    unfold writeFails
    rcases writeLoop_cases ((s.client i).msgQueue.count + 1) s i fd .ok env with
      ⟨fault, t, -, ended⟩ | ⟨d, taken, -, ended⟩ | ⟨d, failed, written, next, ended, goes⟩
    · rw [ended]
      trivial
    · rw [ended, taken]
      exact iff_of_true closed fun missed => nomatch missed
    · rw [ended, failed]
      let s' := (s.modify i fun _ => d).modify i fun c => c.acted .close
      have acted : SameSeats (s.modify i fun _ => d) s' :=
        Client.Written.seats ⟨rfl⟩
      have same : SameSeats s s' := written.seats.trans acted
      have closing : ClosedIff (s'.leaveCommits fd env.deleted) (closeClient s' fd env.deleted) :=
        closeClient_closed_iff (same.db ▸ closed)
      have left := (closing.and
        (closeClient_unlisted (same.epoll ▸ nodup) fd env.deleted)).mono (fun _ _ ends => ends)
          fun _ _ => trivial
      refine Ends.bind left fun t ends => ?_
      have gone : Ends (fun u => ¬ (env.deleted = true ∧ fd ∈ u.epoll) ∧ u.db = t.db)
          (fun _ => True) (next t) :=
        goes.keeps (unlisted_rule t.db) ⟨ends.2, rfl⟩
      refine gone.mono (fun u _ kept => ?_) fun _ _ => trivial
      rw [kept.2, ends.1, same.leaveCommits]
      exact ⟨fun commits _ => commits, fun commits => commits rfl⟩

end Disconnects

/-! Runs -/

section Server

variable {s t : Server} {c i : Slot} {fd : Int}

/-- SQLite commits the transactions that `packet_cancel` and `cancel_transaction`
run on this event. -/
def commitsWork (s : Server) : Event → Prop
  | .recv fd chunk => ∀ c t, s.delivers (.recv fd chunk) = some (c, t) → t.cancelCommits c
  | .write fd env => ∀ i, clientFind s.clients fd = some i → writeFails (s.client i) env →
    s.leaveCommits fd env.deleted
  | .close fd deleted => s.leaveCommits fd deleted
  | _ => True

/-- No transaction is open, and no descriptor is registered twice. -/
structure Server.AtRest (s : Server) : Prop where
  closed : s.db.saved = none
  nodup : s.epoll.Nodup

theorem acceptOne_closed (closed : s.db.saved = none) (conn : Connection)
    (unknown : conn.fd ∉ s.epoll) :
    Ends (fun r => r.2.db.saved = none) (fun _ => True) (acceptOne s conn) := by
  have unlisted : ¬ (conn.deleted = true ∧ conn.fd ∈ s.epoll) := fun known => unknown known.2
  simp only [acceptOne]
  cases clientInit s.clients conn.now conn.ssl with
  | none =>
    rw [closeClient_eq, if_neg unlisted]
    exact closed
  | some found =>
    by_cases added : conn.added = true ∧ conn.fd ∉ s.epoll
    · simp only [epollAdd, if_pos added]
      exact closed
    · simp only [epollAdd, if_neg added]
      rw [closeClient_eq, if_neg unlisted]
      exact closed

/-- A step that returns closes its transaction exactly if SQLite commits it. -/
theorem step_closed_iff (rest : s.AtRest) (e : Event) : ClosedIff (commitsWork s e) (step s e) := by
  have idle : s.db.saved = none ↔ True := iff_true_intro rest.closed
  cases e with
  | accept conn =>
    by_cases used : conn.fd ∈ s.openFds ∨ conn.fd ∈ s.epoll
    · simp only [step, if_pos used]
      exact idle
    · simp only [step, if_neg used]
      refine (acceptOne_closed rest.closed conn (not_or.mp used).2).bind fun r closed => ?_
      exact iff_true_intro closed
  | handshake fd =>
    show _ ↔ _
    unfold completeHandshake
    split
    · exact idle
    · split <;> exact idle
  | wantMore fd bytes =>
    simp only [step, sslWantMore]
    split
    · exact idle
    · split
      · trivial
      · exact idle
  | recv fd chunk =>
    cases delivers : s.delivers (.recv fd chunk) with
    | none =>
      have works : commitsWork s (.recv fd chunk) := fun c t same => by
        rw [delivers] at same
        cases same
      refine (recv_not_delivers delivers).mono (fun t _ same => ?_) fun _ _ => trivial
      rcases same with rfl | ⟨c, buf, rfl⟩ <;> exact iff_of_true rest.closed works
    | some found =>
      obtain ⟨c, u⟩ := found
      obtain ⟨fd', chunk', buf, -, -, rfl⟩ := delivers_received delivers
      rw [step_delivers delivers]
      have handled : ClosedIff _ (analizePacket (s.handed c buf) c) :=
        analizePacket_closed_iff rest.closed
      refine Ends.bind handled fun t ends => ends.trans ⟨fun commits c' t' same => ?_, fun works => ?_⟩
      · rw [delivers] at same
        cases same
        exact commits
      · exact works c _ delivers
  | write fd env => exact writeData_closed_iff rest.closed rest.nodup env
  | close fd deleted => exact closeClient_closed_iff rest.closed

/-- Along every run no transaction is open between events exactly if SQLite
commits, on every event the server survives, the transactions whose `COMMIT`
result is ignored. -/
theorem transactions_closed_iff (tables : Tables) (outcome : Nat → Option Nat)
    (events : List Event) :
    Throughout step (fun s => s.db.saved = none) (Server.init ⟨tables, none, outcome, 0⟩) events ↔
      Guarded step (fun s e => (∃ t, step s e = .ok t) → commitsWork s e)
        (Server.init ⟨tables, none, outcome, 0⟩) events := by
  have start : (Server.init ⟨tables, none, outcome, 0⟩).AtRest := ⟨rfl, .nil⟩
  refine throughout_iff_guarded start (fun s e t rest works taken => ?_)
    (fun s rest => rest.closed) fun s e rest missed => ?_
  · have ends := step_closed_iff rest e
    have nodup := step_epoll_nodup rest.nodup e
    rw [taken] at ends nodup
    exact ⟨ends.mpr (works ⟨t, taken⟩), nodup⟩
  · obtain ⟨⟨t, taken⟩, fails⟩ := Classical.not_imp.mp missed
    have ends := step_closed_iff rest e
    rw [taken] at ends
    exact ⟨t, taken, fun closed => fails (ends.mp closed)⟩

end Server

/-- A database in which the `n`-th statement alone fails. -/
def Database.failing (n : Nat) : Database :=
  { Database.fresh with outcome := fun k => if k = n then some 0 else none }

/-- The cancel's statements are `BEGIN`, two reads and `COMMIT`. -/
theorem transactions_closed_fails :
    ¬ Throughout step (fun s => s.db.saved = none) (Server.init (.failing 3))
      (connects 4 100 ++ packetFrom 4 .transferCancel (stateBody 1)) := by
  intro closed
  have opened : Run.passes (fun s => s.db.saved.isSome) (run step (Server.init (.failing 3))
      (connects 4 100 ++ packetFrom 4 .transferCancel (stateBody 1))) = true := by decide +kernel
  obtain ⟨t, reached, left⟩ := Run.passes_ok opened
  rw [closed.final reached] at left
  cases left

end Quickshare
