import Quickshare.Server.OutputSpace

/-! The order of what `write_data` does on its client. A failed write leaves the
loop after `close_client`; a failed packet does not, and the loop test still
reads the output buffer of the client just closed. -/

namespace Quickshare

open Runs

/-- How the loop of `write_data` first leaves its normal course, with how the last
`write` of that turn ended. -/
inductive WriteExit where
  | ended
  | writeFailed
  | sealFailed (state : WriteResult)
  deriving DecidableEq, Repr

/-- The loop of `write_data` up to the first failure, and how it gets there. -/
def writeExit : Nat → Client → WriteResult → WriteEnv → Except Fault (WriteExit × Client)
  | 0, c, _, _ => .ok (.ended, c)
  | fuel + 1, c, state, env =>
    let (state, c, writes) :=
      if c.secure.encryptedBuf.len > 0 then writeBytes env.writes c else (state, c, env.writes)
    if state = .error then .ok (.writeFailed, c)
    else do
      let (done, c, ssl) ← sealNext c env.ssl
      if done then
        if state ≠ .block ∧ c.secure.encryptedBuf.len > 0 then
          writeExit fuel c state { env with writes, ssl }
        else return (.ended, c)
      else return (.sealFailed state, c)

section Client

variable {c d : Client}

theorem sameActs_rule : TlsRule fun c d => d.secure.acts = c.secure.acts where
  refl := fun _ => rfl
  trans := fun first second => second.trans first
  queue := fun c bytes => by
    simp only [secureQueueWrite]
    split <;> rfl
  gives := fun _ _ _ _ => rfl

theorem encrypt_acts (p : Packet) (c : Client) (ssl : List SslWrite) :
    Ends (fun result => result.2.1.secure.acts = c.secure.acts ++ [.encrypt]) (fun _ => True)
      (encrypt p c ssl) := by
  unfold encrypt
  split
  · trivial
  · exact (sameActs_rule.encryptLoop ssl p.wire (c.acted .encrypt)).mono
      (fun _ _ same => same) fun _ _ => trivial

/-- `write_bytes` does nothing but write. -/
theorem writeBytes_acts (writes : List SysWrite) (c : Client) :
    ∃ k, (writeBytes writes c).2.1.secure.acts = c.secure.acts ++ List.replicate k .write ∧
      (0 < c.secure.encryptedBuf.len → 0 < k) := by
  induction writes generalizing c with
  | nil =>
    unfold writeBytes
    split
    · exact ⟨0, by simp, by omega⟩
    · exact ⟨1, rfl, fun _ => Nat.one_pos⟩
  | cons result rest ih =>
    unfold writeBytes
    split
    · exact ⟨0, by simp, by omega⟩
    · cases result with
      | wouldBlock => exact ⟨1, rfl, fun _ => Nat.one_pos⟩
      | failed => exact ⟨1, rfl, fun _ => Nat.one_pos⟩
      | wrote n =>
        dsimp only
        split
        · exact ⟨1, rfl, fun _ => Nat.one_pos⟩
        · obtain ⟨k, grown, _⟩ := ih ((c.acted .write).written (min n c.secure.encryptedBuf.len))
          refine ⟨k + 1, ?_, fun _ => Nat.succ_pos k⟩
          rw [grown, List.replicate_succ]
          simp [Client.written, Client.acted]

theorem writeTurn_acts (c : Client) (state : WriteResult) (writes : List SysWrite) :
    ∃ k, (writeTurn c state writes).2.1.secure.acts = c.secure.acts ++ List.replicate k .write ∧
      (0 < c.secure.encryptedBuf.len → 0 < k) := by
  unfold writeTurn
  split
  · exact writeBytes_acts writes c
  · exact ⟨0, by simp, fun held => absurd held ‹_›⟩

/-- Writes that neither fail nor block leave nothing over. -/
theorem writeTurn_drained {state last : WriteResult} {writes rest : List SysWrite}
    (turned : writeTurn c state writes = (last, d, rest)) (fine : last ≠ .error)
    (open_ : last ≠ .block) : d.secure.encryptedBuf.len = 0 := by
  unfold writeTurn at turned
  split at turned
  · have ended := writeBytes_unsent writes c
    rw [turned] at ended
    cases last with
    | error => exact absurd rfl fine
    | ok => exact unsent_ok ended
    | block => exact absurd rfl open_
  · rename_i sent
    cases turned
    exact Nat.eq_zero_of_not_pos sent

/-- A turn of the loop that seals a packet takes it off the queue first. -/
theorem sealNext_acts (c : Client) (ssl : List SslWrite) :
    Ends (fun result => (result.1 = true ∧ result.2.1 = c) ∨
        (result.2.1.secure.acts = c.secure.acts ++ [.dequeue, .encrypt] ∧
          c.msgQueue.count = result.2.1.msgQueue.count + 1))
      (fun _ => True) (sealNext c ssl) := by
  unfold sealNext
  cases taken : c.msgQueue.dequeue with
  | none => exact .inl ⟨rfl, rfl⟩
  | some found =>
    obtain ⟨p, q⟩ := found
    have acts := encrypt_acts p { c.acted .dequeue with msgQueue := q } ssl
    have same := encrypt_tls p { c.acted .dequeue with msgQueue := q } ssl
    refine (acts.and same).mono (fun result _ both => .inr ⟨?_, ?_⟩) fun _ _ => trivial
    · rw [both.1]
      simp [Client.acted]
    · have queue : result.2.1.msgQueue = q := congrArg Client.msgQueue both.2.rest
      rw [queue]
      exact Queue.dequeue_count taken

end Client

section Server

variable {s t : Server} {i : Slot} {fd : Int}

/-- What has been done on the client in slot `i`. -/
def Server.acts (s : Server) (i : Slot) : List WriteAct := (s.client i).secure.acts

/-- `close_client` leaves the output buffer and what was done before it. -/
theorem closeClient_acts (s : Server) (fd : Int) (deleted : Bool) (i : Slot) :
    Ends (fun t => t.acts i = s.acts i ∧
        (t.client i).secure.encryptedBuf = (s.client i).secure.encryptedBuf)
      (fun failed => failed.2.acts i = s.acts i) (closeClient s fd deleted) := by
  rw [closeClient_eq]
  split
  · cases found : clientFind s.clients fd with
    | none => exact ⟨rfl, rfl⟩
    | some c =>
      let s' : Server := { s with epoll := s.epoll.erase fd }
      have left : Ends (fun t => (t.client i).secure = (s.client i).secure)
          (fun failed => (failed.2.client i).secure = (s.client i).secure) (leaveSession s' c) :=
        (leaveSession_sends s' c).ends.mono (fun _ _ same => same.secure i)
          fun _ same => same.secure i
      refine (left.mono (fun _ _ same => same) fun failed same => ?_).bind fun t same => ?_
      · exact congrArg Secure.acts same
      · have freed : ((t.closed fd).client i).secure.acts = (t.client i).secure.acts ∧
            ((t.closed fd).client i).secure.encryptedBuf = (t.client i).secure.encryptedBuf := by
          by_cases here : clientFind t.clients fd = some i
          · have gone : (t.closed fd).client i = (t.client i).freed := clientClose_self here
            rw [gone]
            exact ⟨rfl, rfl⟩
          · have kept : (t.closed fd).client i = t.client i := clientClose_of_ne here
            rw [kept]
            exact ⟨rfl, rfl⟩
        rw [same] at freed
        exact freed
  · exact ⟨rfl, rfl⟩

theorem writeClose_acts (s : Server) (i : Slot) (fd : Int) (deleted : Bool) :
    Ends (fun t => t.acts i = s.acts i ++ [.close] ∧
        (t.client i).secure.encryptedBuf = (s.client i).secure.encryptedBuf)
      (fun failed => failed.2.acts i = s.acts i ++ [.close]) (writeClose s i fd deleted) := by
  have closed := closeClient_acts (s.modify i fun c => c.acted .close) fd deleted i
  simp only [Server.acts, Server.client_modify_self] at closed
  exact closed

/-- What was done before stays at the front of what has been done. -/
def Past (past : List WriteAct) (i : Slot) (r : Run Server) : Prop :=
  Ends (fun t => past <+: t.acts i) (fun failed => past <+: failed.2.acts i) r

theorem Past.state {past : List WriteAct} {r : Run Server} (kept : Past past i r) :
    past <+: (Run.state r).acts i := by
  cases r <;> exact kept

theorem writeClose_past {past : List WriteAct} (before : past <+: s.acts i) (deleted : Bool) :
    Past past i (writeClose s i fd deleted) := by
  refine (writeClose_acts s i fd deleted).mono (fun t _ done => ?_) fun failed done => ?_
  · rw [done.1]
    exact before.trans (List.prefix_append ..)
  · rw [done]
    exact before.trans (List.prefix_append ..)

/-- One turn only adds to what its writes have left, if the turns after it do. -/
theorem writeLoop_past_turn {past : List WriteAct} {fuel : Nat} {state : WriteResult}
    {env : WriteEnv} (before : past <+: (writeTurn (s.client i) state env.writes).2.1.secure.acts)
    (later : ∀ t state env, past <+: t.acts i → Past past i (writeLoop fuel t i fd state env)) :
    Past past i (writeLoop (fuel + 1) s i fd state env) := by
  cases turned : writeTurn (s.client i) state env.writes with | mk last rest => ?_
  obtain ⟨d, writes⟩ := rest
  rw [turned] at before
  have acts (e : Client) : (s.modify i fun _ => e).acts i = e.secure.acts := by
    rw [Server.acts, Server.client_modify_self]
  rw [writeLoop_turn fuel turned]
  split
  · exact writeClose_past (by rwa [acts]) env.deleted
  · have sealing := sealNext_acts d env.ssl
    cases sealed : sealNext d env.ssl with
    | error fault =>
      have taken : past <+: d.taken.secure.acts := by
        unfold Client.taken
        split
        · exact before
        · exact before.trans (List.prefix_append ..)
      show past <+: (s.modify i fun _ => d.taken).acts i
      rwa [acts]
    | ok result =>
      obtain ⟨done, e, ssl⟩ := result
      rw [sealed] at sealing
      have grown : past <+: e.secure.acts := by
        rcases sealing with ⟨-, same⟩ | ⟨more, -⟩
        · dsimp only at same
          rwa [same]
        · dsimp only at more
          rw [more]
          exact before.trans (List.prefix_append ..)
      have next : Past past i (if done then .ok (s.modify i fun _ => e)
          else writeClose (s.modify i fun _ => e) i fd env.deleted) := by
        cases done with
        | true =>
          show past <+: (s.modify i fun _ => e).acts i
          rwa [acts]
        | false => exact writeClose_past (by rwa [acts]) env.deleted
      refine Ends.bind next fun t kept => ?_
      split
      · exact later t _ _ kept
      · exact kept

theorem writeLoop_past {past : List WriteAct} (fuel : Nat) (state : WriteResult) (env : WriteEnv)
    (before : past <+: s.acts i) : Past past i (writeLoop fuel s i fd state env) := by
  induction fuel generalizing s state env with
  | zero => exact before
  | succ fuel ih =>
    obtain ⟨k, grown, -⟩ := writeTurn_acts (s.client i) state env.writes
    refine writeLoop_past_turn ?_ fun t state env kept => ih state env kept
    rw [grown]
    exact before.trans (List.prefix_append ..)

/-- With output left over the loop writes. -/
theorem writeLoop_writes (fuel : Nat) (state : WriteResult) (env : WriteEnv)
    (output : 0 < (s.client i).secure.encryptedBuf.len) :
    Past (s.acts i ++ [.write]) i (writeLoop (fuel + 1) s i fd state env) := by
  obtain ⟨k, grown, some⟩ := writeTurn_acts (s.client i) state env.writes
  refine writeLoop_past_turn ?_ fun t state env kept => writeLoop_past fuel state env kept
  obtain ⟨n, rfl⟩ : ∃ n, k = n + 1 := Nat.exists_eq_succ_of_ne_zero (some output).ne'
  have split : (s.client i).secure.acts ++ List.replicate (n + 1) .write =
      s.acts i ++ [.write] ++ List.replicate n .write := by
    simp [Server.acts, List.replicate_succ]
  rw [grown, split]
  exact List.prefix_append ..

/-- A failed packet leaves the loop open; on every other way through it a call of
`close_client`, if there is one, comes last. -/
theorem writeLoop_exits (fuel : Nat) (s : Server) (i : Slot) (fd : Int) (state : WriteResult)
    (env : WriteEnv) (enough : (s.client i).msgQueue.count < fuel) :
    (∃ last d added, writeExit fuel (s.client i) state env = .ok (.sealFailed last, d) ∧
      d.secure.acts = s.acts i ++ added ∧ .close ∉ added ∧
      ∃ fuel' env', writeLoop fuel s i fd state env =
        (writeClose (s.modify i fun _ => d) i fd env.deleted).bind fun t =>
          if last ≠ .block ∧ (t.client i).secure.encryptedBuf.len > 0 then
            writeLoop (fuel' + 1) t i fd last env'
          else .ok t) ∨
    (∀ last d, writeExit fuel (s.client i) state env ≠ .ok (.sealFailed last, d)) ∧
      ∃ added, (Run.state (writeLoop fuel s i fd state env)).acts i = s.acts i ++ added ∧
        .close ∉ added.dropLast := by
  induction fuel generalizing s state env with
  | zero => exact absurd enough (Nat.not_lt_zero _)
  | succ fuel ih =>
    obtain ⟨k, written, -⟩ := writeTurn_acts (s.client i) state env.writes
    have queue : (writeTurn (s.client i) state env.writes).2.1.msgQueue = (s.client i).msgQueue := by
      rw [(writeTurn_same (s.client i) state env.writes).rest]
    cases turned : writeTurn (s.client i) state env.writes with | mk last rest => ?_
    obtain ⟨d, writes⟩ := rest
    rw [turned] at written queue
    replace queue : d.msgQueue = (s.client i).msgQueue := queue
    replace written : d.secure.acts = s.acts i ++ List.replicate k .write := written
    have open_ : WriteAct.close ∉ List.replicate k WriteAct.write := by simp
    have acts (e : Client) : (s.modify i fun _ => e).acts i = e.secure.acts := by
      rw [Server.acts, Server.client_modify_self]
    have exit : writeExit (fuel + 1) (s.client i) state env =
        if last = .error then .ok (.writeFailed, d)
        else (sealNext d env.ssl).bind fun (done, e, ssl) =>
          if done then
            if last ≠ .block ∧ e.secure.encryptedBuf.len > 0 then
              writeExit fuel e last { env with writes, ssl }
            else .ok (.ended, e)
          else .ok (.sealFailed last, e) := by
      unfold writeTurn at turned
      simp only [writeExit, turned]
      rfl
    rw [writeLoop_turn fuel turned, exit]
    by_cases failed : last = .error
    · rw [if_pos failed, if_pos failed]
      refine .inr ⟨fun _ _ => by simp, List.replicate k .write ++ [.close], ?_, ?_⟩
      · have closed := writeClose_acts (s.modify i fun _ => d) i fd env.deleted
        rw [acts, written, List.append_assoc] at closed
        cases ended : writeClose (s.modify i fun _ => d) i fd env.deleted with
        | error stopped =>
          rw [ended] at closed
          exact closed
        | ok t =>
          rw [ended] at closed
          exact closed.1
      · rwa [List.dropLast_concat]
    · rw [if_neg failed, if_neg failed]
      have sealing := sealNext_acts d env.ssl
      cases sealed : sealNext d env.ssl with
      | error fault =>
        refine .inr ⟨fun _ _ => by simp [Except.bind], ?_⟩
        show ∃ added, (s.modify i fun _ => d.taken).acts i = _ ∧ _
        rw [acts]
        unfold Client.taken
        split
        · exact ⟨_, written, fun member => open_ (List.dropLast_subset _ member)⟩
        · refine ⟨List.replicate k .write ++ [.dequeue], ?_, by rwa [List.dropLast_concat]⟩
          rw [← List.append_assoc, ← written]
          rfl
      | ok result =>
        obtain ⟨done, e, ssl⟩ := result
        rw [sealed] at sealing
        replace sealing : (done = true ∧ e = d) ∨ (e.secure.acts = d.secure.acts ++ [.dequeue, .encrypt] ∧
            (s.client i).msgQueue.count = e.msgQueue.count + 1) := queue ▸ sealing
        obtain ⟨middle, grown, quiet⟩ :
            ∃ middle, e.secure.acts = s.acts i ++ middle ∧ .close ∉ middle := by
          rcases sealing with ⟨-, rfl⟩ | ⟨more, -⟩
          · exact ⟨_, written, open_⟩
          · refine ⟨List.replicate k .write ++ [.dequeue, .encrypt], ?_, by simp⟩
            rw [more, written, List.append_assoc]
        cases done with
        | false =>
          rcases sealing with ⟨wrong, -⟩ | ⟨-, count⟩
          · cases wrong
          · obtain ⟨n, rfl⟩ : ∃ n, fuel = n + 1 := Nat.exists_eq_succ_of_ne_zero (by omega)
            exact .inl ⟨last, e, middle, rfl, grown, quiet, n, { env with writes, ssl }, rfl⟩
        | true =>
          have there : (s.modify i fun _ => e).client i = e := s.client_modify_self i _
          simp only [Except.bind, if_true, there]
          by_cases more : last ≠ .block ∧ e.secure.encryptedBuf.len > 0
          · rw [if_pos more, if_pos more]
            have count : e.msgQueue.count < fuel := by
              rcases sealing with ⟨-, rfl⟩ | ⟨-, count⟩
              · have drained := writeTurn_drained turned failed more.1
                omega
              · omega
            have later := ih (s.modify i fun _ => e) last { env with writes, ssl }
            rw [there, acts, grown] at later
            simp only [s.modify_modify, List.append_assoc] at later
            rcases later count with ⟨last', d', added, exits, total, none, rest⟩ | ⟨exits, added, total, none⟩
            · refine .inl ⟨last', d', middle ++ added, exits, total, ?_, rest⟩
              simp [quiet, none]
            · refine .inr ⟨exits, middle ++ added, total, ?_⟩
              rw [List.dropLast_append]
              split
              · exact fun member => quiet (List.dropLast_subset _ member)
              · simp [quiet, none]
          · rw [if_neg more, if_neg more]
            refine .inr ⟨fun _ _ => by simp, middle, ?_, fun member =>
              quiet (List.dropLast_subset _ member)⟩
            show (s.modify i fun _ => e).acts i = _
            rw [acts, grown]

/-- A packet fails to seal with bytes of it queued, in a turn whose last write, if there
was one, did not block, and `close_client` returns. -/
def sealFailsMidway (s : Server) (fd : Int) (env : WriteEnv) : Prop :=
  ∃ i last d t, clientFind s.clients fd = some i ∧
    writeExit ((s.client i).msgQueue.count + 1) (s.client i) .ok env = .ok (.sealFailed last, d) ∧
    last ≠ .block ∧ 0 < d.secure.encryptedBuf.len ∧
    writeClose (s.modify i fun _ => d) i fd env.deleted = .ok t

/-- Once `write_data` has called `close_client` it does nothing more on that client. -/
def stopsAtClose (s : Server) (fd : Int) (env : WriteEnv) : Prop :=
  ∀ i, clientFind s.clients fd = some i →
    ∃ added, (Run.state (writeData s fd env)).acts i = s.acts i ++ added ∧ .close ∉ added.dropLast

/-- `write_data` is done with a client it has closed unless a packet fails to seal with
bytes of it queued. -/
theorem stopsAtClose_iff (s : Server) (fd : Int) (env : WriteEnv) :
    stopsAtClose s fd env ↔ ¬ sealFailsMidway s fd env := by
  constructor
  · rintro done ⟨i, last, d, t, found, exits, unblocked, output, closed⟩
    obtain ⟨added, total, quiet⟩ := done i found
    rcases writeLoop_exits _ s i fd .ok env (Nat.lt_succ_self _) with
      ⟨last', d', before, exits', grown, none, fuel, env', rest⟩ | ⟨exits', -⟩
    · obtain ⟨rfl, rfl⟩ : last = last' ∧ d = d' := by
        rw [exits] at exits'
        cases exits'
        exact ⟨rfl, rfl⟩
      have ended := writeClose_acts (s.modify i fun _ => d) i fd env.deleted
      rw [closed] at rest ended
      replace ended : t.acts i = _ ∧ _ := ended
      rw [Server.acts, Server.acts, Server.client_modify_self, grown] at ended
      have still : last ≠ .block ∧ (t.client i).secure.encryptedBuf.len > 0 := by
        rw [ended.2]
        exact ⟨unblocked, output⟩
      replace rest : writeData s fd env = writeLoop (fuel + 1) t i fd last env' := by
        simp only [writeData, found, rest, Except.bind, if_pos still]
      have written : Past (t.acts i ++ [.write]) i (writeLoop (fuel + 1) t i fd last env') :=
        writeLoop_writes fuel last env' still.2
      have past := written.state
      rw [← rest, total, Server.acts, ended.1] at past
      obtain ⟨after, rfl⟩ : before ++ [.close, .write] <+: added := by
        simpa using past
      exact quiet (by simp)
    · exact exits' last d exits
  · intro sound i found
    rcases writeLoop_exits _ s i fd .ok env (Nat.lt_succ_self _) with
      ⟨last, d, added, exits, grown, none, fuel, env', rest⟩ | ⟨-, done⟩
    · have ended := writeClose_acts (s.modify i fun _ => d) i fd env.deleted
      rw [Server.acts, Server.client_modify_self, grown] at ended
      refine ⟨added ++ [.close], ?_, by rwa [List.dropLast_concat]⟩
      simp only [writeData, found, rest]
      cases closed : writeClose (s.modify i fun _ => d) i fd env.deleted with
      | error failed =>
        rw [closed] at ended
        exact ended.trans (List.append_assoc ..)
      | ok t =>
        rw [closed] at ended
        have stop : ¬ (last ≠ .block ∧ (t.client i).secure.encryptedBuf.len > 0) := by
          rw [ended.2]
          exact fun more => sound ⟨i, last, d, t, found, exits, more.1, more.2, closed⟩
        simp only [Except.bind, if_neg stop]
        exact ended.1.trans (List.append_assoc ..)
    · obtain ⟨added, total, quiet⟩ := done
      exact ⟨added, by simpa only [writeData, found] using total, quiet⟩

end Server

/-- One client that has created its session and waits for the answer. -/
def oneHost : List Event := connects 4 100 ++ packetFrom 4 .clientIntro (introBody 1)

/-- `BIO_read` fails once the eight bytes of the answer have been queued. -/
def brokenSeal : WriteEnv := ⟨[], [.wrote packetMaxSize (some 1)], true⟩

/-- The client is closed, and then what was queued is written to its descriptor. -/
theorem stopsAtClose_fails :
    ∃ s, run step (Server.init .fresh) oneHost = .ok s ∧ ¬ stopsAtClose s 4 brokenSeal := by
  have passed : Run.passes (fun s => clientFind s.clients 4 = some 0 ∧
      (Run.state (writeData s 4 brokenSeal)).acts 0 =
        s.acts 0 ++ [.dequeue, .encrypt, .close, .write])
      (run step (Server.init .fresh) oneHost) = true := by
    decide +kernel
  obtain ⟨s, reached, both⟩ := Run.passes_ok passed
  obtain ⟨found, done⟩ := of_decide_eq_true both
  refine ⟨s, reached, fun sound => ?_⟩
  obtain ⟨added, total, quiet⟩ := sound 0 found
  rw [done] at total
  rw [← List.append_cancel_left total] at quiet
  exact quiet (by decide)

end Quickshare
