import Quickshare.Server.Conservation
import Quickshare.Server.WriteOrder

/-! `write_data` drains. Each turn but the last takes a packet off the queue and
each `write` that does not block takes bytes off the buffer, so the loop ends;
it ends with nothing left or on a blocked write. -/

namespace Quickshare

open Runs

/-- The call of `write` numbered `n` from 0 blocks. -/
def Blocks (writes : List SysWrite) (n : Nat) : Prop :=
  writes[n]? = none ∨ writes[n]? = some .wouldBlock

/-- No `write`, `SSL_write` or `BIO_read` fails; pieces may be of any size. -/
structure WriteEnv.Steady (env : WriteEnv) : Prop where
  writes : Client.cleanWrites env.writes
  ssl : ∀ result ∈ env.ssl, ∃ n, 0 < n ∧ result = .wrote n none

/-- The TLS object of `c`, if it is there, puts something out for each plaintext. -/
def Client.Answering (c : Client) : Prop :=
  ∀ record, c.seals = some record → ∀ n plain, plain ≠ [] → record n plain ≠ []

namespace Client

variable {c d : Client}

/-- Writes that do not fail drain the buffer or end with a blocked one. -/
theorem writeBytes_steady (writes : List SysWrite) (c : Client) (clean : cleanWrites writes) :
    ∃ k, k ≤ c.pending ∧
      (writeBytes writes c).2.1.secure.acts = c.secure.acts ++ List.replicate k .write ∧
      (writeBytes writes c).2.2 = writes.drop k ∧
      (((writeBytes writes c).1 = .ok ∧ (writeBytes writes c).2.1.pending = 0) ∨
        ((writeBytes writes c).1 = .block ∧ ∃ j, k = j + 1 ∧ Blocks writes j)) := by
  induction writes generalizing c with
  | nil =>
    unfold writeBytes
    by_cases sent : c.secure.encryptedBuf.len = 0
    · rw [if_pos sent]
      exact ⟨0, Nat.zero_le _, by simp, rfl, .inl ⟨rfl, sent⟩⟩
    · rw [if_neg sent]
      exact ⟨1, Nat.one_le_iff_ne_zero.mpr sent, rfl, rfl, .inr ⟨rfl, 0, rfl, .inl rfl⟩⟩
  | cons result rest ih =>
    obtain ⟨first, later⟩ := List.forall_mem_cons.mp clean
    unfold writeBytes
    by_cases sent : c.secure.encryptedBuf.len = 0
    · rw [if_pos sent]
      exact ⟨0, Nat.zero_le _, by simp, rfl, .inl ⟨rfl, sent⟩⟩
    · have some : 1 ≤ c.pending := Nat.one_le_iff_ne_zero.mpr sent
      rw [if_neg sent]
      cases result with
      | failed => exact absurd rfl first.1
      | wouldBlock => exact ⟨1, some, rfl, rfl, .inr ⟨rfl, 0, rfl, .inr rfl⟩⟩
      | wrote n =>
        have positive : n ≠ 0 := fun zero => first.2 (by rw [zero])
        dsimp only
        rw [if_neg positive]
        let next := (c.acted .write).written (min n c.secure.encryptedBuf.len)
        have less : next.pending = c.pending - min n c.pending := rfl
        obtain ⟨k, few, acts, left, ends⟩ := ih next later
        refine ⟨k + 1, by omega, ?_, left, ?_⟩
        · rw [acts, List.replicate_succ]
          simp [next, written, acted]
        · rcases ends with drained | ⟨blocked, j, rfl, here⟩
          · exact .inl drained
          · exact .inr ⟨blocked, j + 1, rfl, here⟩

theorem writeTurn_steady {writes : List SysWrite} (c : Client) (clean : cleanWrites writes) :
    ∃ k, k ≤ c.pending ∧
      (writeTurn c .ok writes).2.1.secure.acts = c.secure.acts ++ List.replicate k .write ∧
      (writeTurn c .ok writes).2.2 = writes.drop k ∧
      (((writeTurn c .ok writes).1 = .ok ∧ (writeTurn c .ok writes).2.1.pending = 0) ∨
        ((writeTurn c .ok writes).1 = .block ∧ ∃ j, k = j + 1 ∧ Blocks writes j)) := by
  unfold writeTurn
  split
  · exact writeBytes_steady writes c clean
  · rename_i sent
    exact ⟨0, Nat.zero_le _, by simp, rfl, .inl ⟨rfl, Nat.eq_zero_of_not_pos sent⟩⟩

/-- Sealing some bytes without an error leaves output, fewer bytes than the buffer holds. -/
theorem sslWrote_output (answering : c.Answering) {plain : List UInt8} (held : plain ≠ []) :
    Ends (fun result => result.1 = true ∧ 0 < result.2.pending ∧
        result.2.pending < 2 * packetMaxSize) (fun _ => True) (sslWrote c plain none) := by
  unfold sslWrote
  cases found : c.secure.ssl with
  | none => trivial
  | some ssl =>
    have inhabited := answering ssl.record (by rw [seals, found]; rfl) ssl.sealed.length plain held
    let start : Client := { c with secure := { c.secure with
      ssl := some { ssl with sealed := ssl.sealed ++ [plain] } } }
    let record := ssl.record ssl.sealed.length plain
    have whole := bioPieces_flatten record.length record (Nat.le_refl _)
    have some : 0 < record.length := List.length_pos_iff.mpr inhabited
    show Ends _ _ (((bioPieces record.length record).foldlM secureQueueWrite start).bind _)
    rcases queueAll_cases _ (bioPieces_ne_nil (Nat.le_refl _) inhabited) start with
      ⟨room, d, queued, size⟩ | ⟨-, stopped⟩
    · rw [queued]
      rw [whole] at room size
      refine ⟨rfl, ?_, ?_⟩
      · show 0 < d.pending
        omega
      · show d.pending < 2 * packetMaxSize
        omega
    · rw [stopped]
      trivial

theorem Answering.congr (answering : c.Answering) (same : d.seals = c.seals) : d.Answering := by
  rwa [Answering, same]

theorem encryptLoop_output (ssl : List SslWrite) (data : List UInt8) (c : Client)
    (answering : c.Answering) (steady : ∀ result ∈ ssl, ∃ n, 0 < n ∧ result = .wrote n none)
    (held : data ≠ []) :
    Ends (fun result => result.1 = true ∧ (0 < result.2.1.pending ∧
        result.2.1.pending < 2 * packetMaxSize) ∧ result.2.2 ⊆ ssl) (fun _ => True)
      (encryptLoop ssl data c) := by
  induction ssl generalizing data c with
  | nil =>
    simp only [encryptLoop, if_neg held]
    exact Ends.bind (sslWrote_output answering held) fun d sealed =>
      ⟨rfl, sealed.2, List.Subset.refl _⟩
  | cons result rest ih =>
    obtain ⟨⟨n, positive, rfl⟩, later⟩ := List.forall_mem_cons.mp steady
    have front : data.take n ≠ [] := by
      simp only [ne_eq, List.take_eq_nil_iff, held, or_false]
      omega
    simp only [encryptLoop, if_neg held, if_neg positive.ne']
    have both := ((sslWrote_output answering front).and (tlsOnly_rule.sslWrote c _ none)).mono
      (fun _ _ both => both) fun _ _ => trivial
    refine Ends.bind both fun r ends => ?_
    obtain ⟨sealed, same⟩ := ends
    rw [if_pos sealed.1]
    by_cases last : data.drop n = []
    · rw [last]
      cases rest <;> exact ⟨rfl, sealed.2, by simp⟩
    · refine (ih _ r.2 (answering.congr same.seals) later last).mono (fun _ _ ends => ?_)
        fun _ _ => trivial
      exact ⟨ends.1, ends.2.1, List.Subset.trans ends.2.2 (List.subset_cons_self ..)⟩

/-- `d` is `c` with its oldest packet sealed into the output buffer. -/
structure SealsOne (c d : Client) : Prop where
  acts : d.secure.acts = c.secure.acts ++ [.dequeue, .encrypt]
  count : c.msgQueue.count = d.msgQueue.count + 1
  some : 0 < d.pending
  room : d.pending < 2 * packetMaxSize

theorem sealNext_steady (answering : c.Answering) {ssl : List SslWrite}
    (steady : ∀ result ∈ ssl, ∃ n, 0 < n ∧ result = .wrote n none) :
    Ends (fun result => result.1 = true ∧ result.2.2 ⊆ ssl ∧ result.2.1.seals = c.seals ∧
        (c.SealsOne result.2.1 ∨ result.2.1 = c ∧ c.msgQueue.count = 0))
      (fun _ => True) (sealNext c ssl) := by
  unfold sealNext
  cases taken : c.msgQueue.dequeue with
  | none =>
    refine ⟨rfl, List.Subset.refl _, rfl, .inr ⟨rfl, ?_⟩⟩
    have empty := congrArg List.length (Queue.dequeue_none taken)
    simpa using empty
  | some found =>
    obtain ⟨p, q⟩ := found
    let next : Client := { c.acted .dequeue with msgQueue := q }
    have held : p.wire ≠ [] := List.ne_nil_of_length_pos (by simp [Packet.wire, hdrSize])
    have sealed : Ends (fun result => result.1 = true ∧ (0 < result.2.1.pending ∧
        result.2.1.pending < 2 * packetMaxSize) ∧ result.2.2 ⊆ ssl) (fun _ => True)
        (encrypt p next ssl) := by
      unfold encrypt
      split
      · trivial
      · exact encryptLoop_output ssl p.wire (next.acted .encrypt) answering steady held
    have all := (sealed.and (encrypt_acts p next ssl)).and (encrypt_tls p next ssl)
    refine all.mono (fun result _ ends => ?_) fun _ _ => trivial
    obtain ⟨⟨output, acts⟩, same⟩ := ends
    have queue : result.2.1.msgQueue = q := congrArg Client.msgQueue same.rest
    refine ⟨output.1, output.2.2, same.seals, .inl ⟨?_, ?_, output.2.1.1, output.2.1.2⟩⟩
    · rw [acts]
      simp [next, acted]
    · rw [queue]
      exact Queue.dequeue_count taken

end Client

/-- Nothing is left to send. -/
def Client.Drained (c : Client) : Prop := c.msgQueue.count = 0 ∧ c.pending = 0

/-- The last write among `added` blocked, and at most one packet was taken after it. -/
def EndsBlocked (writes : List SysWrite) (added : List WriteAct) : Prop :=
  ∃ before after, added = before ++ .write :: after ∧ .write ∉ after ∧
    after.count .dequeue ≤ 1 ∧ Blocks writes (before.count .write)

/-- `write_data` goes from `c` to `d` by the acts `added`. It takes packets no more often
than there are any, writes no more often than there are bytes, and ends drained or blocked. -/
structure Drains (c d : Client) (writes : List SysWrite) (added : List WriteAct) : Prop where
  acts : d.secure.acts = c.secure.acts ++ added
  dequeues : added.count .dequeue ≤ c.msgQueue.count
  calls : added.count .write ≤ c.pending + c.msgQueue.count * (2 * packetMaxSize)
  ends : d.Drained ∨ EndsBlocked writes added

theorem none_taken (k n : Nat) : List.count .dequeue (List.replicate k WriteAct.write) ≤ n := by
  simp [List.count_replicate]

theorem turn_writes (k : Nat) (acts : List WriteAct) :
    List.count .write (List.replicate k WriteAct.write ++ [WriteAct.dequeue, .encrypt] ++ acts) =
      k + acts.count .write := by
  simp

/-- A turn that seals a packet, before the rest of the loop. -/
theorem Drains.turn {c d e : Client} {writes : List SysWrite} {added : List WriteAct} {k : Nat}
    (few : k ≤ c.pending) (written : d.secure.acts = c.secure.acts ++ List.replicate k .write)
    (queue : d.msgQueue = c.msgQueue) (sealed : d.SealsOne e)
    (later : Drains e f (writes.drop k) added) :
    Drains c f writes (List.replicate k .write ++ [.dequeue, .encrypt] ++ added) where
  acts := by
    rw [later.acts, sealed.acts, written]
    simp only [List.append_assoc]
  dequeues := by
    have count := sealed.count
    have after := later.dequeues
    rw [queue] at count
    simp [List.count_replicate]
    omega
  calls := by
    have count := sealed.count
    have after := later.calls
    have room := sealed.room
    rw [queue] at count
    rw [turn_writes]
    have total := Nat.add_one_mul e.msgQueue.count (2 * packetMaxSize)
    rw [← count] at total
    omega
  ends := by
    rcases later.ends with drained | ⟨before, after, rfl, last, one, blocks⟩
    · exact .inl drained
    · refine .inr ⟨List.replicate k .write ++ [.dequeue, .encrypt] ++ before, after, ?_, last, one, ?_⟩
      · simp
      · unfold Blocks at blocks ⊢
        rwa [turn_writes, ← List.getElem?_drop]

section Server

variable {s t : Server} {i : Slot} {fd : Int} {env : WriteEnv}

/-- A turn fails an assertion, is the last one, or seals a packet and goes on. -/
theorem writeLoop_steady_turn (fd : Int) (steady : env.Steady) (answering : (s.client i).Answering) :
    (∃ failed, ∀ n, writeLoop (n + 1) s i fd .ok env = .error failed) ∨
    (∃ e added, Drains (s.client i) e env.writes added ∧
      ∀ n, writeLoop (n + 1) s i fd .ok env = .ok (s.modify i fun _ => e)) ∨
    ∃ (d e : Client) (k : Nat) (ssl : List SslWrite), k ≤ (s.client i).pending ∧
      d.secure.acts = (s.client i).secure.acts ++ List.replicate k .write ∧
      d.msgQueue = (s.client i).msgQueue ∧ d.SealsOne e ∧ e.Answering ∧ ssl ⊆ env.ssl ∧
      ∀ n, writeLoop (n + 1) s i fd .ok env =
        writeLoop n (s.modify i fun _ => e) i fd .ok { env with writes := env.writes.drop k, ssl } := by
  have queue : (writeTurn (s.client i) .ok env.writes).2.1.msgQueue = (s.client i).msgQueue := by
    rw [(writeTurn_same (s.client i) .ok env.writes).rest]
  have tls := (writeTurn_same (s.client i) .ok env.writes).seals
  obtain ⟨k, few, written, left, ends⟩ :=
    Client.writeTurn_steady (s.client i) steady.writes
  cases turned : writeTurn (s.client i) .ok env.writes with | mk last rest => ?_
  obtain ⟨d, writes⟩ := rest
  rw [turned] at queue tls written left ends
  obtain rfl : writes = env.writes.drop k := left
  have loop (n : Nat) : writeLoop (n + 1) s i fd .ok env = _ := writeLoop_turn n turned
  have fine : last ≠ .error := by
    rcases ends with ⟨rfl, -⟩ | ⟨rfl, -⟩ <;> decide
  have sealing := Client.sealNext_steady (answering.congr tls) steady.ssl
  cases sealed : sealNext d env.ssl with
  | error fault =>
    refine .inl ⟨(fault, s.modify i fun _ => d.taken), fun n => ?_⟩
    rw [loop, if_neg fine, sealed]
  | ok result =>
    obtain ⟨done, e, ssl⟩ := result
    rw [sealed] at sealing
    obtain ⟨rfl, fewer, same, next⟩ := sealing
    have there : (s.modify i fun _ => e).client i = e := s.client_modify_self i _
    rcases ends with ⟨rfl, sent⟩ | ⟨rfl, j, rfl, blocks⟩
    · rcases next with one | ⟨same, none⟩
      · refine .inr (.inr ⟨d, e, k, ssl, few, written, queue, one,
          answering.congr (same.trans tls), fewer, fun n => ?_⟩)
        have more : WriteResult.ok ≠ .block ∧ e.secure.encryptedBuf.len > 0 := ⟨by decide, one.some⟩
        rw [loop, if_neg fine, sealed]
        simp only [if_true, Except.bind, there, if_pos more]
      · obtain rfl : e = d := same
        refine .inr (.inl ⟨e, List.replicate k .write, ⟨written, none_taken _ _, ?_, ?_⟩, fun n => ?_⟩)
        · rw [List.count_replicate_self]
          omega
        · rw [queue] at none
          exact .inl ⟨by rw [queue, none], sent⟩
        · have stop : ¬ (WriteResult.ok ≠ .block ∧ e.secure.encryptedBuf.len > 0) :=
            fun more => Nat.ne_of_gt more.2 sent
          rw [loop, if_neg fine, sealed]
          simp only [if_true, Except.bind, there, if_neg stop]
    · have stop : ¬ (WriteResult.block ≠ .block ∧ e.secure.encryptedBuf.len > 0) :=
        fun more => more.1 rfl
      have ended : ∀ n, writeLoop (n + 1) s i fd .ok env = .ok (s.modify i fun _ => e) := fun n => by
        rw [loop, if_neg fine, sealed]
        simp only [if_true, Except.bind, there, if_neg stop]
      have calls : List.replicate (j + 1) WriteAct.write = List.replicate j .write ++ [.write] :=
        List.replicate_succ'
      rcases next with one | ⟨same, -⟩
      · have count := one.count
        rw [queue] at count
        refine .inr (.inl ⟨e, List.replicate (j + 1) .write ++ [.dequeue, .encrypt],
          ⟨?_, ?_, ?_, .inr ⟨List.replicate j .write, [.dequeue, .encrypt], ?_, by simp, by simp, ?_⟩⟩,
          ended⟩)
        · rw [one.acts, written, List.append_assoc]
        · rw [List.count_append]
          have none := none_taken (j + 1) 0
          simp
          omega
        · simp
          omega
        · rw [calls, List.append_assoc]
          rfl
        · rwa [List.count_replicate_self]
      · obtain rfl : e = d := same
        refine .inr (.inl ⟨e, List.replicate (j + 1) .write,
          ⟨written, none_taken _ _, ?_, .inr ⟨List.replicate j .write, [], calls, by simp, by simp, ?_⟩⟩,
          ended⟩)
        · rw [List.count_replicate_self]
          omega
        · rwa [List.count_replicate_self]

/-- The loop needs no more turns than packets wait and one, and it drains its client or
ends on a blocked write. -/
theorem writeLoop_drains (fuel more : Nat) (steady : env.Steady)
    (answering : (s.client i).Answering) (enough : (s.client i).msgQueue.count < fuel)
    (enough' : (s.client i).msgQueue.count < more) :
    writeLoop more s i fd .ok env = writeLoop fuel s i fd .ok env ∧
      Ends (fun t => ∃ added, Drains (s.client i) (t.client i) env.writes added) (fun _ => True)
        (writeLoop fuel s i fd .ok env) := by
  induction fuel generalizing s more env with
  | zero => exact absurd enough (Nat.not_lt_zero _)
  | succ fuel ih =>
    obtain ⟨more, rfl⟩ : ∃ n, more = n + 1 := Nat.exists_eq_succ_of_ne_zero (by omega)
    rcases writeLoop_steady_turn fd steady answering with
      ⟨failed, stops⟩ | ⟨e, added, drains, stops⟩ |
      ⟨d, e, k, ssl, few, written, queue, sealed, answering, fewer, goes⟩
    · rw [stops, stops]
      exact ⟨rfl, trivial⟩
    · rw [stops, stops]
      refine ⟨rfl, added, ?_⟩
      rwa [Server.client_modify_self]
    · have there : (s.modify i fun _ => e).client i = e := s.client_modify_self i _
      have count := sealed.count
      rw [queue] at count
      have next : WriteEnv.Steady { env with writes := env.writes.drop k, ssl } :=
        ⟨fun result member => steady.writes result (List.mem_of_mem_drop member),
          fun result member => steady.ssl result (fewer member)⟩
      obtain ⟨same, ends⟩ := ih (s := s.modify i fun _ => e) more next (by rwa [there])
        (by rw [there]; omega) (by rw [there]; omega)
      rw [goes, goes]
      refine ⟨same, ends.mono (fun t _ later => ?_) fun _ _ => trivial⟩
      obtain ⟨added, later⟩ := later
      rw [there] at later
      exact ⟨_, later.turn few written queue sealed⟩

/-- `write_data` ends, after at most as many turns as packets wait and one, and it leaves
its client with nothing to send or with its last write blocked. -/
theorem writeData_drains (found : clientFind s.clients fd = some i) (steady : env.Steady)
    (answering : (s.client i).Answering) :
    (∀ fuel, (s.client i).msgQueue.count < fuel →
      writeLoop fuel s i fd .ok env = writeData s fd env) ∧
    ∀ t, writeData s fd env = .ok t →
      ∃ added, Drains (s.client i) (t.client i) env.writes added := by
  have loop : writeData s fd env = writeLoop ((s.client i).msgQueue.count + 1) s i fd .ok env := by
    simp only [writeData, found]
  rw [loop]
  refine ⟨fun fuel enough => ?_, fun t done => ?_⟩
  · exact (writeLoop_drains _ fuel steady answering (Nat.lt_succ_self _) enough).1
  · have ends := (@writeLoop_drains _ _ fd _ _ _ steady answering (Nat.lt_succ_self _)
      (Nat.lt_succ_self _)).2
    rw [done] at ends
    exact ends

end Server

theorem maxClients_pos : 0 < maxClients := by decide

/-- One client with a bare header queued and three bytes sealed before. -/
def waiting : Server := (Server.init .fresh).modify ⟨0, maxClients_pos⟩ fun c => { c with
  fd := 4
  state := .complete
  msgQueue := { c.msgQueue with head := 1, count := 1 }
  secure := { c.secure with
    ssl := some .plain
    encryptedBuf := { c.secure.encryptedBuf with len := 3 } } }

/-- The first call takes two bytes and the fourth blocks. -/
def slowSocket : WriteEnv := ⟨[.wrote 2, .wrote 100, .wrote 5, .wouldBlock], [], true⟩

theorem slowSocket_steady : slowSocket.Steady :=
  ⟨by unfold slowSocket Client.cleanWrites; decide, by simp [slowSocket]⟩

theorem writeData_drains_slow : ∃ t added, writeData waiting 4 slowSocket = .ok t ∧
    Drains (waiting.client 0) (t.client 0) slowSocket.writes added := by
  have answering : (waiting.client 0).Answering := by
    intro record same n plain held
    cases same
    exact held
  obtain ⟨t, done⟩ : ∃ t, writeData waiting 4 slowSocket = .ok t :=
    Run.fault?_eq_none (by decide +kernel)
  have found : clientFind waiting.clients 4 = some 0 := by decide +kernel
  obtain ⟨added, drains⟩ := (writeData_drains found slowSocket_steady answering).2 t done
  exact ⟨t, added, done, drains⟩

end Quickshare
