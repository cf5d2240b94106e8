import Quickshare.Server.StepRules

/-! `write_data` seen from the client it works on. Up to a failure the loop
looks at nothing else, and after one it closes that client. -/

namespace Quickshare

open Runs

/-- Take one packet off the queue, if there is one, and seal it. -/
def sealNext (c : Client) (ssl : List SslWrite) : Except Fault (Bool × Client × List SslWrite) :=
  match c.msgQueue.dequeue with
  | none => .ok (true, c, ssl)
  | some (packet, q) => encrypt packet { c.acted .dequeue with msgQueue := q } ssl

/-- The loop of `write_data` up to the first failure; `false` where it fails. -/
def writeClient : Nat → Client → WriteResult → WriteEnv → Except Fault (Bool × Client)
  | 0, c, _, _ => .ok (true, c)
  | fuel + 1, c, state, env =>
    let (state, c, writes) :=
      if c.secure.encryptedBuf.len > 0 then writeBytes env.writes c else (state, c, env.writes)
    if state = .error then .ok (false, c)
    else do
      let (done, c, ssl) ← sealNext c env.ssl
      if done then
        if state ≠ .block ∧ c.secure.encryptedBuf.len > 0 then
          writeClient fuel c state { env with writes, ssl }
        else return (true, c)
      else return (false, c)

/-- `write`, `SSL_write` or `BIO_read` fails before the loop of `write_data` ends. -/
def writeFails (c : Client) (env : WriteEnv) : Prop :=
  (writeClient (c.msgQueue.count + 1) c .ok env).map Prod.fst = .ok false

/-- `d` is `c` but for its TLS side and its queue. -/
structure Client.Written (c d : Client) : Prop where
  rest : d = { c with secure := d.secure, msgQueue := d.msgQueue }

theorem Client.Written.refl (c : Client) : c.Written c := ⟨rfl⟩

theorem Client.Written.trans {c d e : Client} (first : c.Written d) (second : d.Written e) :
    c.Written e where
  rest := by rw [second.rest, first.rest]

theorem Client.SameButSecure.written {c d : Client} (same : c.SameButSecure d) : c.Written d where
  rest := by rw [same.rest]

theorem bioPieces_flatten (fuel : Nat) (bytes : List UInt8) (enough : bytes.length ≤ fuel) :
    (bioPieces fuel bytes).flatten = bytes := by
  induction fuel generalizing bytes with
  | zero =>
    have empty : bytes = [] := List.length_eq_zero_iff.mp (by omega)
    subst empty
    rfl
  | succ fuel ih =>
    rw [bioPieces]
    split
    · rename_i empty
      subst empty
      rfl
    · rename_i held
      have positive := List.length_pos_iff.mpr held
      rw [List.flatten_cons, ih _ (by simp; omega), List.take_append_drop]

section

variable {s t : Server} {i : Slot} {fd : Int}

/-- Who sits where, the tables and the registered descriptors agree. -/
structure SameSeats (s t : Server) : Prop where
  id : ∀ i, (t.client i).id = (s.client i).id
  fd : ∀ i, (t.client i).fd = (s.client i).fd
  state : ∀ i, (t.client i).state = (s.client i).state
  db : t.db = s.db
  epoll : t.epoll = s.epoll

theorem SameSeats.trans {u : Server} (first : SameSeats s t) (second : SameSeats t u) :
    SameSeats s u where
  id := fun i => (second.id i).trans (first.id i)
  fd := fun i => (second.fd i).trans (first.fd i)
  state := fun i => (second.state i).trans (first.state i)
  db := second.db.trans first.db
  epoll := second.epoll.trans first.epoll

theorem SameSeats.find (same : SameSeats s t) (fd : Int) :
    clientFind t.clients fd = clientFind s.clients fd := by
  apply ClientList.search_congr
  intro i
  have state : (t.clients.list i).state = (s.clients.list i).state := same.state i
  have fd : (t.clients.list i).fd = (s.clients.list i).fd := same.fd i
  simp only [state, fd]

theorem Client.Written.seats {d : Client} (written : (s.client i).Written d) :
    SameSeats s (s.modify i fun _ => d) := by
  have kept {Value : Type} (get : Client → Value) (blind : get d = get (s.client i)) (j : Slot) :
      get ((s.modify i fun _ => d).client j) = get (s.client j) := by
    by_cases here : j = i
    · subst here
      rw [Server.client_modify_self, blind]
    · rw [Server.client_modify_of_ne _ _ here]
  exact ⟨kept Client.id (by rw [written.rest]), kept Client.fd (by rw [written.rest]),
    kept Client.state (by rw [written.rest]), rfl, rfl⟩

theorem Server.modify_client (s : Server) (i : Slot) : (s.modify i fun _ => s.client i) = s := by
  simp [modify, ClientList.modify, client]

theorem Server.modify_modify (s : Server) (i : Slot) (f g : Client → Client) :
    (s.modify i f).modify i g = s.modify i (g ∘ f) := by
  simp [modify, ClientList.modify]

theorem sealNext_written (c : Client) (ssl : List SslWrite) :
    Ends (fun result => c.Written result.2.1) (fun _ => True) (sealNext c ssl) := by
  unfold sealNext
  cases c.msgQueue.dequeue with
  | none => exact Client.Written.refl c
  | some found =>
    obtain ⟨packet, q⟩ := found
    have taken : c.Written { c.acted .dequeue with msgQueue := q } := ⟨rfl⟩
    exact (encrypt_tls packet _ ssl).mono (fun _ _ same => taken.trans same.written) fun _ _ => trivial

/-- `c` with its oldest packet, if there is one, taken off the queue. -/
def Client.taken (c : Client) : Client :=
  match c.msgQueue.dequeue with
  | none => c
  | some (_, q) => { c.acted .dequeue with msgQueue := q }

/-- What the server does with a packet taken off a queue. -/
theorem encryptNext_eq (s : Server) (i : Slot) (fd : Int) (env : WriteEnv) :
    (∃ fault, sealNext (s.client i) env.ssl = .error fault ∧
      encryptNext s i fd env = .error (fault, s.modify i Client.taken)) ∨
    ∃ done d ssl, sealNext (s.client i) env.ssl = .ok (done, d, ssl) ∧
      encryptNext s i fd env = if done then .ok ({ env with ssl }, s.modify i fun _ => d)
        else (writeClose (s.modify i fun _ => d) i fd env.deleted).map ({ env with ssl }, ·) := by
  unfold encryptNext sealNext
  cases taken : (s.client i).msgQueue.dequeue with
  | none =>
    refine .inr ⟨true, s.client i, env.ssl, rfl, ?_⟩
    rw [if_pos rfl, s.modify_client]
  | some found =>
    obtain ⟨packet, q⟩ := found
    dsimp only
    rw [s.client_modify_self]
    cases encrypt packet { (s.client i).acted .dequeue with msgQueue := q } env.ssl with
    | error fault =>
      refine .inl ⟨fault, rfl, ?_⟩
      have same : s.modify i Client.taken =
          s.modify i fun c => { c.acted .dequeue with msgQueue := q } := by
        have here : (s.clients.list i).msgQueue.dequeue = some (packet, q) := taken
        simp only [Server.modify, ClientList.modify, Client.taken, here]
      rw [same]
      rfl
    | ok result =>
      obtain ⟨done, d, ssl⟩ := result
      refine .inr ⟨done, d, ssl, rfl, ?_⟩
      simp only [Server.lift, bind, Except.bind, s.modify_modify]
      cases done with
      | true => rfl
      | false =>
        have same : ((fun _ => d) ∘ fun c : Client => { c.acted .dequeue with msgQueue := q }) =
          fun _ => d := rfl
        rw [same]
        cases writeClose (s.modify i fun _ => d) i fd env.deleted <;> rfl

/-- The writes at the start of a turn: none where no output is left. -/
def writeTurn (c : Client) (state : WriteResult) (writes : List SysWrite) :
    WriteResult × Client × List SysWrite :=
  if c.secure.encryptedBuf.len > 0 then writeBytes writes c else (state, c, writes)

theorem writeTurn_same (c : Client) (state : WriteResult) (writes : List SysWrite) :
    c.SameButSecure (writeTurn c state writes).2.1 := by
  unfold writeTurn
  split
  · exact writeBytes_same ..
  · exact .refl _

/-- One turn of the loop, in terms of its client. -/
theorem writeLoop_turn (fuel : Nat) {state last : WriteResult} {env : WriteEnv} {d : Client}
    {writes : List SysWrite}
    (turned : writeTurn (s.client i) state env.writes = (last, d, writes)) :
    writeLoop (fuel + 1) s i fd state env =
      if last = .error then writeClose (s.modify i fun _ => d) i fd env.deleted
      else match sealNext d env.ssl with
        | .error fault => .error (fault, s.modify i fun _ => d.taken)
        | .ok (done, e, ssl) =>
          (if done then .ok (s.modify i fun _ => e)
            else writeClose (s.modify i fun _ => e) i fd env.deleted).bind fun t =>
          if last ≠ .block ∧ (t.client i).secure.encryptedBuf.len > 0 then
            writeLoop fuel t i fd last { env with writes, ssl }
          else .ok t := by
  unfold writeTurn at turned
  simp only [writeLoop, turned]
  by_cases failed : last = .error
  · rw [if_pos failed, if_pos failed]
  · rw [if_neg failed, if_neg failed]
    have here : (s.modify i fun _ => d).client i = d := s.client_modify_self i _
    rcases encryptNext_eq (s.modify i fun _ => d) i fd { env with writes } with
      ⟨fault, stopped, ended⟩ | ⟨done, e, ssl, sealed, ended⟩
    · rw [here] at stopped
      rw [ended, stopped, s.modify_modify]
      rfl
    · rw [here] at sealed
      rw [s.modify_modify] at ended
      rw [ended, sealed]
      cases done with
      | true => rfl
      | false =>
        have same : ((fun _ => e) ∘ fun _ : Client => d) = fun _ => e := rfl
        rw [same]
        dsimp only
        cases writeClose (s.modify i fun _ => e) i fd env.deleted <;> rfl

/-- What follows a close in `write_data`: nothing, or more turns of its loop. -/
def GoesOn (i : Slot) (fd : Int) (deleted : Bool) (next : Server → Run Server) : Prop :=
  ∀ t, next t = .ok t ∨ ∃ fuel state env, env.deleted = deleted ∧
    next t = writeLoop fuel t i fd state env

theorem GoesOn.keeps {deleted : Bool} {next : Server → Run Server} {P : Server → Prop}
    {E : Fault × Server → Prop} (goes : GoesOn i fd deleted next)
    (rule : WriteRuleAt fd deleted P E) (held : P t) : Ends P E (next t) := by
  rcases goes t with done | ⟨fuel, state, env, same, more⟩
  · rw [done]
    exact held
  · rw [more]
    exact rule.writeLoop fuel held state env same

/-- The loop changes its client until it fails; then it closes the client and
may go on. -/
theorem writeLoop_cases (fuel : Nat) (s : Server) (i : Slot) (fd : Int) (state : WriteResult)
    (env : WriteEnv) :
    (∃ fault t, writeClient fuel (s.client i) state env = .error fault ∧
      writeLoop fuel s i fd state env = .error (fault, t)) ∨
    (∃ d, writeClient fuel (s.client i) state env = .ok (true, d) ∧ (s.client i).Written d ∧
      writeLoop fuel s i fd state env = .ok (s.modify i fun _ => d)) ∨
    ∃ d, writeClient fuel (s.client i) state env = .ok (false, d) ∧ (s.client i).Written d ∧
      ∃ next : Server → Run Server,
        writeLoop fuel s i fd state env =
          (writeClose (s.modify i fun _ => d) i fd env.deleted).bind next ∧
        GoesOn i fd env.deleted next := by
  induction fuel generalizing s state env with
  | zero => exact .inr (.inl ⟨s.client i, rfl, .refl _, by rw [s.modify_client]; rfl⟩)
  | succ fuel ih =>
    have written := (writeTurn_same (s.client i) state env.writes).written
    cases turned : writeTurn (s.client i) state env.writes with | mk last rest => ?_
    obtain ⟨d, writes⟩ := rest
    rw [turned] at written
    rw [writeLoop_turn fuel turned]
    unfold writeTurn at turned
    simp only [writeClient, turned]
    by_cases failed : last = .error
    · rw [if_pos failed, if_pos failed]
      refine .inr (.inr ⟨d, rfl, written, .ok, ?_, fun t => .inl rfl⟩)
      cases writeClose (s.modify i fun _ => d) i fd env.deleted <;> rfl
    · rw [if_neg failed, if_neg failed]
      have sealing := sealNext_written d env.ssl
      cases sealed : sealNext d env.ssl with
      | error fault => exact .inl ⟨fault, _, rfl, rfl⟩
      | ok result =>
        obtain ⟨done, e, ssl⟩ := result
        rw [sealed] at sealing
        have kept : (s.client i).Written e := written.trans sealing
        cases done with
        | true =>
          have there : (s.modify i fun _ => e).client i = e := s.client_modify_self i _
          simp only [if_true, bind, Except.bind, there]
          by_cases more : last ≠ .block ∧ e.secure.encryptedBuf.len > 0
          · rw [if_pos more, if_pos more]
            have later := ih (s.modify i fun _ => e) last { env with writes, ssl }
            rw [there] at later
            simp only [s.modify_modify] at later
            rcases later with stopped | ⟨d', taken, kept', ended'⟩ | ⟨d', failed', kept', rest⟩
            · exact .inl stopped
            · exact .inr (.inl ⟨d', taken, kept.trans kept', ended'⟩)
            · exact .inr (.inr ⟨d', failed', kept.trans kept', rest⟩)
          · rw [if_neg more, if_neg more]
            exact .inr (.inl ⟨e, rfl, kept, rfl⟩)
        | false =>
          refine .inr (.inr ⟨e, rfl, kept, fun t =>
            if last ≠ .block ∧ (t.client i).secure.encryptedBuf.len > 0 then
              writeLoop fuel t i fd last { env with writes, ssl } else .ok t, rfl, fun t => ?_⟩)
          dsimp only
          split
          · exact .inr ⟨fuel, last, { env with writes, ssl }, rfl, rfl⟩
          · exact .inl rfl

theorem sealNext_valid {c : Client} (valid : c.msgQueue.Valid) (ssl : List SslWrite) :
    Ends (fun result => result.2.1.msgQueue.Valid) (fun fault => fault.ofHandler = false)
      (sealNext c ssl) := by
  unfold sealNext
  cases taken : c.msgQueue.dequeue with
  | none => exact valid
  | some found =>
    obtain ⟨packet, q⟩ := found
    refine (encrypt_tls packet _ ssl).mono (fun _ _ same => ?_) fun _ sealing => sealing
    have kept := congrArg Client.msgQueue same.rest
    exact kept ▸ valid.dequeue taken

/-- Writing takes packets off the queue and leaves it in order; where it stops the server
it is not as a packet handler does. -/
theorem writeClient_valid (fuel : Nat) {c : Client} (valid : c.msgQueue.Valid) (state : WriteResult)
    (env : WriteEnv) :
    Ends (fun result => result.2.msgQueue.Valid) (fun fault => fault.ofHandler = false)
      (writeClient fuel c state env) := by
  induction fuel generalizing c state env with
  | zero => exact valid
  | succ fuel ih =>
    have same := writeTurn_same c state env.writes
    cases turned : writeTurn c state env.writes with | mk last rest => ?_
    obtain ⟨d, writes⟩ := rest
    rw [turned] at same
    have kept : d.msgQueue.Valid := by
      have queue := congrArg Client.msgQueue same.rest
      exact (show d.msgQueue = c.msgQueue from queue) ▸ valid
    unfold writeTurn at turned
    simp only [writeClient, turned]
    split
    · exact kept
    · refine (sealNext_valid kept env.ssl).bind fun result sealed => ?_
      obtain ⟨done, e, ssl⟩ := result
      cases done with
      | true =>
        simp only [if_true]
        split
        · exact ih sealed last { env with writes, ssl }
        · exact sealed
      | false => exact sealed

/-! Descriptors -/

theorem closeClient_nodup (nodup : s.epoll.Nodup) (fd : Int) (deleted : Bool) :
    Ends (fun t => t.epoll.Nodup) (fun _ => True) (closeClient s fd deleted) := by
  rw [closeClient_eq]
  split
  · have fewer := nodup.erase fd
    dsimp only
    split
    · exact fewer
    · exact Ends.bind (leaveSession_sends { s with epoll := s.epoll.erase fd } _).descriptors
        fun t same => show t.epoll.Nodup from same.epoll ▸ fewer
  · exact nodup

theorem nodup_rule : WriteRule (fun s => s.epoll.Nodup) fun _ => True where
  fail := fun _ _ _ _ => trivial
  drain := fun _ _ _ nodup _ => nodup
  close := fun _ fd deleted nodup => closeClient_nodup nodup fd deleted

/-- A descriptor that has been closed is registered no more. -/
theorem closeClient_unlisted (nodup : s.epoll.Nodup) (fd : Int) (deleted : Bool) :
    Ends (fun t => ¬ (deleted = true ∧ fd ∈ t.epoll)) (fun _ => True) (closeClient s fd deleted) := by
  rw [closeClient_eq]
  by_cases known : deleted = true ∧ fd ∈ s.epoll
  · rw [if_pos known]
    have gone : fd ∉ s.epoll.erase fd := nodup.not_mem_erase
    dsimp only
    split
    · exact fun held => gone held.2
    · exact Ends.bind (leaveSession_sends { s with epoll := s.epoll.erase fd } _).descriptors
        fun t same => show ¬ (deleted = true ∧ fd ∈ t.epoll) from same.epoll ▸ fun held => gone held.2
  · rw [if_neg known]
    exact known

theorem writeClose_idle {deleted : Bool} (idle : ¬ (deleted = true ∧ fd ∈ s.epoll)) (i : Slot) :
    writeClose s i fd deleted = .ok (s.modify i fun c => c.acted .close) := by
  unfold writeClose
  rw [closeClient_eq]
  exact if_neg idle

/-- Where closing fails the loop only writes. -/
theorem writeLoop_idle (fuel : Nat) (state : WriteResult) (env : WriteEnv)
    (idle : ¬ (env.deleted = true ∧ fd ∈ s.epoll)) :
    Ends (fun t => ∃ d, (s.client i).Written d ∧ t = s.modify i fun _ => d) (fun _ => True)
      (writeLoop fuel s i fd state env) := by
  induction fuel generalizing s state env with
  | zero => exact ⟨s.client i, .refl _, (s.modify_client i).symm⟩
  | succ fuel ih =>
    have written := (writeTurn_same (s.client i) state env.writes).written
    cases turned : writeTurn (s.client i) state env.writes with | mk last rest => ?_
    obtain ⟨d, writes⟩ := rest
    rw [turned] at written
    have closing {e : Client} (kept : (s.client i).Written e) :
        ∃ d, (s.client i).Written d ∧
          writeClose (s.modify i fun _ => e) i fd env.deleted = .ok (s.modify i fun _ => d) := by
      refine ⟨e.acted .close, kept.trans ⟨rfl⟩, ?_⟩
      rw [writeClose_idle (s := s.modify i fun _ => e) idle, s.modify_modify]
      rfl
    rw [writeLoop_turn fuel turned]
    split
    · obtain ⟨e, kept, closed⟩ := closing written
      rw [closed]
      exact ⟨e, kept, rfl⟩
    · have sealing := sealNext_written d env.ssl
      cases sealed : sealNext d env.ssl with
      | error fault => trivial
      | ok result =>
        obtain ⟨done, e, ssl⟩ := result
        rw [sealed] at sealing
        have next : ∃ g, (s.client i).Written g ∧
            (if done then .ok (s.modify i fun _ => e)
              else writeClose (s.modify i fun _ => e) i fd env.deleted) =
            (.ok (s.modify i fun _ => g) : Run Server) := by
          cases done with
          | true => exact ⟨e, written.trans sealing, rfl⟩
          | false => exact closing (written.trans sealing)
        obtain ⟨g, kept, same⟩ := next
        dsimp only
        rw [same]
        dsimp only [Except.bind]
        split
        · have later := ih (s := s.modify i fun _ => g) last { env with writes, ssl } idle
          refine later.mono (fun t _ wrote => ?_) fun _ _ => trivial
          obtain ⟨d, again, rfl⟩ := wrote
          rw [s.client_modify_self] at again
          exact ⟨d, kept.trans again, s.modify_modify i _ _⟩
        · exact ⟨g, kept, rfl⟩

/-- What `write_data` comes to: it writes for its client, and it may close that client once. -/
theorem writeData_cases (nodup : s.epoll.Nodup) {env : WriteEnv}
    (done : writeData s fd env = .ok t) :
    t = s ∨ ∃ i d, clientFind s.clients fd = some i ∧ (s.client i).Written d ∧
      (t = s.modify i (fun _ => d) ∨ ∃ u e,
        closeClient (s.modify i fun _ => d) fd env.deleted = .ok u ∧
        (env.deleted = true ∧ fd ∈ s.epoll) ∧ (u.client i).Written e ∧
        ((s.client i).msgQueue.Valid → d.msgQueue.Valid) ∧ t = u.modify i fun _ => e) := by
  unfold writeData at done
  cases found : clientFind s.clients fd with
  | none =>
    rw [found] at done
    cases done
    exact .inl rfl
  | some i =>
    rw [found] at done
    dsimp only at done
    refine .inr ?_
    by_cases idle : env.deleted = true ∧ fd ∈ s.epoll
    · rcases writeLoop_cases ((s.client i).msgQueue.count + 1) s i fd .ok env with
        ⟨fault, u, -, ended⟩ | ⟨d, -, written, ended⟩ | ⟨d, wrote, written, next, ended, later⟩
      · cases ended.symm.trans done
      · cases ended.symm.trans done
        exact ⟨i, d, rfl, written, .inl rfl⟩
      · rw [ended] at done
        obtain ⟨u, closed, rest⟩ := bind_ok done
        have unlisted := closeClient_unlisted
          (s := (s.modify i fun _ => d).modify i fun c => c.acted .close) nodup fd env.deleted
        rw [show closeClient _ fd env.deleted = _ from closed] at unlisted
        have kept : (s.client i).Written (d.acted .close) := written.trans ⟨rfl⟩
        have valid (before : (s.client i).msgQueue.Valid) : d.msgQueue.Valid := by
          have kept := writeClient_valid ((s.client i).msgQueue.count + 1) before .ok env
          rw [wrote] at kept
          exact kept
        unfold writeClose at closed
        rw [s.modify_modify] at closed
        refine ⟨i, d.acted .close, rfl, kept, .inr ?_⟩
        rcases later u with same | ⟨fuel, state, env', deleted, same⟩
        · cases same.symm.trans rest
          exact ⟨t, t.client i, closed, idle, .refl _, valid, (t.modify_client i).symm⟩
        · have wrote := writeLoop_idle (i := i) fuel state env' (deleted ▸ unlisted)
          rw [show writeLoop fuel u i fd state env' = .ok t from same.symm.trans rest] at wrote
          obtain ⟨e, again, rfl⟩ := wrote
          exact ⟨u, e, closed, idle, again, valid, rfl⟩
    · have wrote := writeLoop_idle (i := i) ((s.client i).msgQueue.count + 1) .ok env idle
      rw [show writeLoop _ s i fd .ok env = .ok t from done] at wrote
      obtain ⟨d, written, rfl⟩ := wrote
      exact ⟨i, d, rfl, written, .inl rfl⟩

theorem acceptOne_nodup (nodup : s.epoll.Nodup) (conn : Connection) (unknown : conn.fd ∉ s.epoll) :
    Ends (fun r => r.2.epoll.Nodup) (fun _ => True) (acceptOne s conn) := by
  have unlisted : ¬ (conn.deleted = true ∧ conn.fd ∈ s.epoll) := fun known => unknown known.2
  simp only [acceptOne]
  cases clientInit s.clients conn.now conn.ssl with
  | none =>
    rw [closeClient_eq, if_neg unlisted]
    exact nodup
  | some found =>
    by_cases added : conn.added = true ∧ conn.fd ∉ s.epoll
    · simp only [epollAdd, if_pos added]
      exact List.nodup_cons.mpr ⟨unknown, nodup⟩
    · simp only [epollAdd, if_neg added]
      rw [closeClient_eq, if_neg unlisted]
      exact nodup

/-- No event registers a descriptor twice. -/
theorem step_epoll_nodup (nodup : s.epoll.Nodup) (e : Event) :
    Ends (fun t => t.epoll.Nodup) (fun _ => True) (step s e) := by
  cases e with
  | accept conn =>
    by_cases used : conn.fd ∈ s.openFds ∨ conn.fd ∈ s.epoll
    · simp only [step, if_pos used]
      exact nodup
    · simp only [step, if_neg used]
      exact (acceptOne_nodup nodup conn (not_or.mp used).2).bind fun r kept => kept
  | handshake fd =>
    show List.Nodup _
    unfold completeHandshake
    split
    · exact nodup
    · split <;> exact nodup
  | wantMore fd bytes =>
    simp only [step, sslWantMore]
    split
    · exact nodup
    · split
      · trivial
      · exact nodup
  | recv fd chunk =>
    cases delivers : s.delivers (.recv fd chunk) with
    | none =>
      refine (recv_not_delivers delivers).mono (fun t _ same => ?_) fun _ _ => trivial
      rcases same with rfl | ⟨c, buf, rfl⟩ <;> exact nodup
    | some found =>
      obtain ⟨c, u⟩ := found
      obtain ⟨fd', chunk', buf, -, -, rfl⟩ := delivers_received delivers
      rw [step_delivers delivers]
      exact Ends.bind (analizePacket_descriptors (s.handed c buf) c) fun t same =>
        show t.epoll.Nodup from same.epoll ▸ nodup
  | write fd env => exact nodup_rule.writeData nodup fd env
  | close fd deleted => exact closeClient_nodup nodup fd deleted

theorem run_epoll_nodup {events : List Event} (nodup : s.epoll.Nodup)
    (reached : run step s events = .ok t) : t.epoll.Nodup := by
  induction events generalizing s with
  | nil =>
    cases reached
    exact nodup
  | cons e rest ih =>
    obtain ⟨u, taken, remaining⟩ := run_cons_ok reached
    have kept := step_epoll_nodup nodup e
    rw [taken] at kept
    exact ih kept remaining

end

end Quickshare
