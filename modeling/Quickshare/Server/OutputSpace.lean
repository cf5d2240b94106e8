import Quickshare.Server.QueueSpace
import Quickshare.Server.Identity
import Quickshare.Server.WriteLoop

/-! Room in the output buffer. `write_data` seals one more packet even after a
blocked write, so the assertion of `secure_queue_write` holds exactly when what
the socket left unsent, the next packet and its TLS overhead stay below the
buffer's size. -/

namespace Quickshare

open Runs

/-- TLS adds `k` bytes to each plaintext. -/
def Ssl.Adds (k : Nat) (ssl : Ssl) : Prop :=
  ∀ n plain, (ssl.record n plain).length = plain.length + k

/-- How `write_bytes` ends, the bytes it leaves unsent and the results of
`write` it leaves unused. -/
def unsent : List SysWrite → Nat → WriteResult × Nat × List SysWrite
  | [], len => if len = 0 then (.ok, 0, []) else (.block, len, [])
  | result :: rest, len =>
    if len = 0 then (.ok, 0, result :: rest)
    else match result with
      | .wouldBlock => (.block, len, rest)
      | .failed => (.error, len, rest)
      | .wrote n => if n = 0 then (.error, len, rest) else unsent rest (len - min n len)

/-- At each packet taken, of the sizes `packets`, the bytes unsent, the packet
and `k` more are fewer than the buffer holds. -/
def spaceFits (k : Nat) : List Nat → Nat → List SysWrite → Prop
  | [], _, _ => True
  | n :: rest, len, writes =>
    match unsent writes len with
    | (.error, _) => True
    | (.block, left, _) => left + n + k < 2 * packetMaxSize
    | (.ok, left, writes) =>
      left + n + k < 2 * packetMaxSize ∧ spaceFits k rest (left + n + k) writes

instance spaceFits.decidable (k : Nat) : (packets : List Nat) → (len : Nat) →
    (writes : List SysWrite) → Decidable (spaceFits k packets len writes)
  | [], _, _ => isTrue trivial
  | n :: rest, len, writes => match turn : unsent writes len with
    | (.error, _, _) => isTrue (by simp [spaceFits, turn])
    | (.block, left, _) => decidable_of_iff (left + n + k < 2 * packetMaxSize)
        (by simp [spaceFits, turn])
    | (.ok, left, writes) =>
      have := spaceFits.decidable k rest (left + n + k) writes
      decidable_of_iff (left + n + k < 2 * packetMaxSize ∧ spaceFits k rest (left + n + k) writes)
        (by simp [spaceFits, turn])

section Client

variable {c d : Client} {k : Nat}

/-- Bytes sealed and not yet taken by the socket. -/
def Client.pending (c : Client) : Nat := c.secure.encryptedBuf.len

theorem writeBytes_unsent (writes : List SysWrite) (c : Client) :
    unsent writes c.pending =
      ((writeBytes writes c).1, (writeBytes writes c).2.1.pending, (writeBytes writes c).2.2) := by
  induction writes generalizing c with
  | nil =>
    by_cases done : c.secure.encryptedBuf.len = 0
    · simp [unsent, writeBytes, Client.pending, done]
    · simp [unsent, writeBytes, Client.pending, done, Client.acted]
  | cons result rest ih =>
    by_cases done : c.secure.encryptedBuf.len = 0
    · simp [unsent, writeBytes, Client.pending, done]
    · simp only [unsent, writeBytes, Client.pending, done, if_false]
      cases result with
      | wouldBlock => rfl
      | failed => rfl
      | wrote n =>
        dsimp only
        by_cases none : n = 0
        · simp only [if_pos none]
          rfl
        · simp only [if_neg none]
          exact ih ((c.acted .write).written (min n c.secure.encryptedBuf.len))

/-- Queuing pieces works out exactly if all of them together leave a byte free. -/
theorem queueAll_cases (pieces : List (List UInt8)) (inhabited : pieces ≠ []) (c : Client) :
    (c.pending + pieces.flatten.length < 2 * packetMaxSize ∧
      ∃ d, pieces.foldlM secureQueueWrite c = .ok d ∧
        d.pending = c.pending + pieces.flatten.length) ∨
    (2 * packetMaxSize ≤ c.pending + pieces.flatten.length ∧
      pieces.foldlM secureQueueWrite c = .error .space) := by
  induction pieces generalizing c with
  | nil => exact absurd rfl inhabited
  | cons piece rest ih =>
    let next : Client := { c with secure := { c.secure with encryptedBuf := { c.secure.encryptedBuf with
      data := c.secure.encryptedBuf.data.write c.secure.encryptedBuf.len piece
      len := c.secure.encryptedBuf.len + piece.length } } }
    have one : secureQueueWrite c piece = if c.pending + piece.length < 2 * packetMaxSize then
        .ok next else .error .space := rfl
    have moved : next.pending = c.pending + piece.length := rfl
    rw [List.foldlM_cons, List.flatten_cons, List.length_append, one]
    by_cases first : c.pending + piece.length < 2 * packetMaxSize
    · rw [if_pos first]
      by_cases last : rest = []
      · subst last
        exact .inl ⟨by simpa using first, next, rfl, by simp [moved]⟩
      · have later := ih last next
        rw [moved, Nat.add_assoc] at later
        exact later
    · rw [if_neg first]
      exact .inr ⟨by omega, rfl⟩

theorem bioPieces_ne_nil {fuel : Nat} {bytes : List UInt8} (enough : bytes.length ≤ fuel)
    (held : bytes ≠ []) : bioPieces fuel bytes ≠ [] := fun empty => by
  have whole := bioPieces_flatten fuel bytes enough
  rw [empty] at whole
  exact held whole.symm

/-- The TLS object of `c` is there and adds `k` bytes. -/
def Client.Sealing (k : Nat) (c : Client) : Prop :=
  ∃ record, c.seals = some record ∧ ∀ n plain, (record n plain).length = plain.length + k

theorem Client.Sealing.congr (sealing : c.Sealing k) (same : d.seals = c.seals) : d.Sealing k := by
  rwa [Client.Sealing, same]

/-- Sealing a packet in one piece works out exactly if its record leaves a byte free. -/
theorem encrypt_cases (sealing : c.Sealing k) (p : Packet)
    (small : hdrSize + p.size ≤ packetMaxSize) :
    (c.pending + (hdrSize + p.size) + k < 2 * packetMaxSize ∧
      ∃ d, encrypt p c [] = .ok (true, d, []) ∧ d.pending = c.pending + (hdrSize + p.size) + k) ∨
    (2 * packetMaxSize ≤ c.pending + (hdrSize + p.size) + k ∧ encrypt p c [] = .error .space) := by
  obtain ⟨_, seals, adds⟩ := sealing
  obtain ⟨ssl, found, rfl⟩ := Option.map_eq_some_iff.mp seals
  have length : p.wire.length = hdrSize + p.size := by simp [Packet.wire]
  have held : p.wire ≠ [] := List.ne_nil_of_length_pos (by simp only [length, hdrSize]; omega)
  let record := ssl.record ssl.sealed.length p.wire
  have size : record.length = hdrSize + p.size + k := by rw [adds, length]
  have inhabited : record ≠ [] := List.ne_nil_of_length_pos (by simp only [size, hdrSize]; omega)
  let start : Client := { c.acted .encrypt with secure := { (c.acted .encrypt).secure with
    ssl := some { ssl with sealed := ssl.sealed ++ [p.wire] } } }
  have whole : encrypt p c [] = ((bioPieces record.length record).foldlM secureQueueWrite start).bind
      fun d => .ok (true, d, []) := by
    have acted : (c.acted .encrypt).secure.ssl = some ssl := found
    simp only [encrypt, if_neg (Nat.not_lt.mpr small), encryptLoop, if_neg held, sslWrote, acted,
      drainBio]
    exact bind_bind _ _ _
  have pending : start.pending = c.pending := rfl
  have total : (bioPieces record.length record).flatten.length = hdrSize + p.size + k := by
    rw [bioPieces_flatten _ _ (Nat.le_refl _), size]
  have queued := queueAll_cases _ (bioPieces_ne_nil (Nat.le_refl _) inhabited) start
  rw [total, ← Nat.add_assoc, pending] at queued
  rw [whole]
  rcases queued with ⟨room, d, done, left⟩ | ⟨full, failed⟩
  · exact .inl ⟨room, d, by rw [done]; rfl, left⟩
  · exact .inr ⟨full, by rw [failed]; rfl⟩

end Client

theorem unsent_zero (writes : List SysWrite) : unsent writes 0 = (.ok, 0, writes) := by
  cases writes <;> rfl

theorem unsent_ok {writes rest : List SysWrite} {len left : Nat}
    (ended : unsent writes len = (.ok, left, rest)) : left = 0 := by
  induction writes generalizing len with
  | nil =>
    simp only [unsent] at ended
    split at ended <;> cases ended
    rfl
  | cons result later ih =>
    simp only [unsent] at ended
    split at ended
    · cases ended
      rfl
    · cases result with
      | wouldBlock => cases ended
      | failed => cases ended
      | wrote n =>
        dsimp only at ended
        split at ended
        · cases ended
        · exact ih ended

section Server

variable {s t : Server} {i : Slot} {fd : Int} {k : Nat}

/-- The computation fails the assertion of `secure_queue_write`. -/
def OutOfSpace {Result : Type} (r : Run Result) : Prop := ∃ t, r = .error (.space, t)

theorem closeClient_not_outOfSpace (s : Server) (fd : Int) (deleted : Bool) :
    ¬ OutOfSpace (closeClient s fd deleted) := by
  rintro ⟨t, failed⟩
  have full := closeClient_fault s fd deleted
  rw [failed] at full
  cases full

/-- The sizes of the packets waiting for a client. -/
def Client.waiting (c : Client) : List Nat :=
  c.msgQueue.contents.map fun p => hdrSize + p.size

theorem writeLoop_space_iff (fuel : Nat) (state : WriteResult) (writes : List SysWrite)
    (deleted : Bool) (sealing : (s.client i).Sealing k) (valid : (s.client i).msgQueue.Valid)
    (small : ∀ n ∈ (s.client i).waiting, n ≤ packetMaxSize)
    (enough : (s.client i).msgQueue.count < fuel)
    (idle : (s.client i).pending = 0 → state = .ok) :
    OutOfSpace (writeLoop fuel s i fd state ⟨writes, [], deleted⟩) ↔
      ¬ spaceFits k (s.client i).waiting (s.client i).pending writes := by
  induction fuel generalizing s state writes with
  | zero => omega
  | succ fuel ih =>
    simp only [writeLoop]
    have turn : unsent writes (s.client i).pending =
        let out := if (s.client i).secure.encryptedBuf.len > 0 then writeBytes writes (s.client i)
          else (state, s.client i, writes)
        (out.1, out.2.1.pending, out.2.2) := by
      split
      · exact writeBytes_unsent writes (s.client i)
      · rename_i sent
        have zero : (s.client i).pending = 0 := by simpa [Client.pending] using sent
        rw [zero, unsent_zero, idle zero]
        simp [zero]
    have written : (s.client i).SameButSecure (if (s.client i).secure.encryptedBuf.len > 0
        then writeBytes writes (s.client i) else (state, s.client i, writes)).2.1 := by
      split
      · exact writeBytes_same ..
      · exact .refl _
    generalize (if (s.client i).secure.encryptedBuf.len > 0 then writeBytes writes (s.client i)
      else (state, s.client i, writes)) = out at turn written ⊢
    obtain ⟨state', d, writes'⟩ := out
    dsimp only at turn written ⊢
    have queue : d.msgQueue = (s.client i).msgQueue := by rw [written.rest]
    have here : (s.modify i fun _ => d).client i = d := s.client_modify_self i _
    by_cases failed : state' = .error
    · subst failed
      rw [if_pos rfl]
      refine iff_of_false (closeClient_not_outOfSpace _ _ _) fun missed => missed ?_
      cases (s.client i).waiting <;> simp [spaceFits, turn]
    · rw [if_neg failed]
      simp only [encryptNext, here, queue]
      cases taken : (s.client i).msgQueue.dequeue with
      | none =>
        have none : (s.client i).waiting = [] := by
          simp [Client.waiting, Queue.dequeue_none taken]
        rw [none]
        refine iff_of_false ?_ fun missed => missed trivial
        have stop : ¬ (state' ≠ .block ∧
            ((s.modify i fun _ => d).client i).secure.encryptedBuf.len > 0) := by
          rintro ⟨unblocked, held⟩
          have ended : state' = .ok := by
            cases state' with
            | error => exact absurd rfl failed
            | ok => rfl
            | block => exact absurd rfl unblocked
          rw [ended] at turn
          have sent : d.secure.encryptedBuf.len = 0 := unsent_ok turn
          rw [here, sent] at held
          exact absurd held (Nat.lt_irrefl 0)
        simp only [bind, Except.bind]
        rw [if_neg stop]
        rintro ⟨t, same⟩
        cases same
      | some found =>
        obtain ⟨p, q⟩ := found
        dsimp only
        have rest : (s.client i).waiting =
            (hdrSize + p.size) :: q.contents.map fun p => hdrSize + p.size := by
          simp [Client.waiting, valid.dequeue_contents taken]
        let c' : Client := { d.acted .dequeue with msgQueue := q }
        have now : ((s.modify i fun _ => d).modify i fun c =>
            { c.acted .dequeue with msgQueue := q }).client i = c' := by
          rw [Server.client_modify_self, here]
        have sealing' : c'.Sealing k := sealing.congr (show d.seals = _ from written.seals)
        rw [rest] at small ⊢
        have fits := small _ (List.mem_cons_self ..)
        have tls := encrypt_tls p c' []
        rw [now]
        rcases encrypt_cases sealing' p fits with ⟨room, e, done, left⟩ | ⟨full, stopped⟩
        · rw [done] at tls ⊢
          replace tls : c'.SameButSecure e := tls
          generalize ((s.modify i fun _ => d).modify i fun c =>
            { c.acted .dequeue with msgQueue := q }) = taken'
          have last : (taken'.modify i fun _ => e).client i = e := taken'.client_modify_self i _
          have queue' : e.msgQueue = q := by rw [tls.rest]
          have waiting : e.waiting = q.contents.map fun p => hdrSize + p.size := by
            rw [Client.waiting, queue']
          simp only [Server.lift, bind, Except.bind, if_true, pure, Except.pure, last]
          have held : e.secure.encryptedBuf.len > 0 := by
            have size : e.secure.encryptedBuf.len = d.pending + (hdrSize + p.size) + k := left
            rw [size, hdrSize]
            omega
          have same : c'.pending = d.pending := rfl
          rw [same] at left room
          cases state' with
          | error => exact absurd rfl failed
          | block =>
            rw [if_neg fun more => more.1 rfl]
            simp only [spaceFits, turn]
            refine iff_of_false ?_ fun missed => missed room
            rintro ⟨t, same⟩
            cases same
          | ok =>
            have unblocked : WriteResult.ok ≠ .block := by decide
            rw [if_pos ⟨unblocked, held⟩]
            simp only [spaceFits, turn]
            have count := Queue.dequeue_count taken
            have later := ih (s := taken'.modify i fun _ => e) .ok writes'
              (by rw [last]; exact sealing'.congr tls.seals)
              (by rw [last, queue']; exact valid.dequeue taken)
              (by rw [last, waiting]; exact fun n member => small n (List.mem_cons_of_mem _ member))
              (by rw [last, queue']; omega) fun _ => rfl
            rw [last, waiting, left] at later
            rw [later]
            exact not_congr ⟨fun fits => ⟨room, fits⟩, fun both => both.2⟩
        · rw [stopped]
          refine iff_of_true ⟨_, rfl⟩ ?_
          simp only [spaceFits, turn]
          have beyond : ¬ d.pending + (hdrSize + p.size) + k < 2 * packetMaxSize := Nat.not_lt.mpr full
          cases state' with
          | error => exact absurd rfl failed
          | ok => exact fun both => beyond both.1
          | block => exact beyond

/-- Every connected client has a TLS object that adds `k` bytes. -/
def Server.Sealing (k : Nat) (s : Server) : Prop := ∀ i, s.Live i → (s.client i).Sealing k

theorem Server.Sealing.of_live (sealing : s.Sealing k)
    (kept : ∀ i, t.Live i → s.Live i ∧ (t.client i).seals = (s.client i).seals) : t.Sealing k :=
  fun i live => (sealing i (kept i live).1).congr (kept i live).2

theorem Server.Sealing.modify (sealing : s.Sealing k) (f : Client → Client)
    (live : (f (s.client i)).state ≠ .empty → (s.client i).state ≠ .empty)
    (seals : (f (s.client i)).seals = (s.client i).seals) : (s.modify i f).Sealing k := by
  refine sealing.of_live fun j held => ?_
  by_cases here : j = i
  · subst here
    rw [Server.Live, client_modify_self] at held
    rw [client_modify_self]
    exact ⟨live held, seals⟩
  · rw [Server.Live, client_modify_of_ne _ _ here] at held
    rw [client_modify_of_ne _ _ here]
    exact ⟨held, rfl⟩

theorem sealing_rule (k : Nat) : StepRule (Server.Sealing k) fun _ => True :=
  .of_clients (fun s t same sealing => sealing.of_live fun i live =>
      ⟨(same.live i).mp live, by rw [Client.seals, same.secure, Client.seals]⟩)
    (fun s i d sealing drains => sealing.modify (fun _ => d)
      (by rw [drains.rest]; exact id) drains.seals)
    (fun s fd sealing => sealing.of_live fun i live => by
      refine ⟨s.closed_live fd i live, ?_⟩
      by_cases found : clientFind s.clients fd = some i
      · simp [Server.Live, Server.client, Server.closed, clientClose_self found, Client.freed] at live
      · simp [Server.client, Server.closed, clientClose_of_ne found])
    (fun s i fd sealing => sealing.modify _ id rfl)
    (fun s i sealing connected => sealing.modify _ (by simp [connected]) rfl)

theorem Server.Sealing.decryptData {c : Slot} (sealing : s.Sealing k) (live : s.Live c)
    (chunk : List UInt8) :
    Ends (Server.Sealing k) (fun _ => True) (decryptData s c chunk) := by
  have received (buf : Buffer packetMaxSize) : (s.received c buf).Sealing k :=
    sealing.modify _ id rfl
  refine decryptData_ends trivial (fun buf _ => received buf) fun buf _ => ?_
  have registered : (s.handed c buf).Live c := by
    rwa [Server.Live, Server.handed_client, Server.received, Server.client_modify_self]
  refine (analizePacket_touches (s.handed c buf) c).mono (fun t _ handled => ?_) fun _ _ => trivial
  have handed : (s.handed c buf).Sealing k := received buf
  have left : t.Sealing k := handed.of_live fun i live =>
    ⟨handled.live registered i live, by rw [Client.seals, handled.secure, Client.seals]⟩
  exact left.modify _ id rfl

/-- What is assumed of TLS: `SSL_write` takes a packet whole and adds `k` bytes. -/
def Event.Seals (k : Nat) : Event → Prop
  | .accept conn => conn.ssl.Adds k
  | .write _ env => env.ssl = []
  | _ => True

/-- What is assumed of the packets waiting when they are written. -/
def queuedSmall (s : Server) : Event → Prop
  | .write fd _ => ∀ i, clientFind s.clients fd = some i →
    ∀ n ∈ (s.client i).waiting, n ≤ packetMaxSize
  | _ => True

instance (s : Server) (e : Event) : Decidable (queuedSmall s e) := by
  cases e <;> unfold queuedSmall <;> infer_instance

theorem Server.Sealing.step (sealing : s.Sealing k) {e : Event} (given : e.Seals k) :
    Ends (Server.Sealing k) (fun _ => True) (step s e) :=
  (sealing_rule k).step sealing e
    (fun conn i clients same _ _ taken => by
      subst same
      obtain ⟨-, rfl⟩ := clientInit_some taken
      intro j live
      simp only [Server.client, ClientList.modify] at live ⊢
      by_cases here : j = i
      · subst here
        rw [Function.update_self]
        exact ⟨conn.ssl.record, rfl, given⟩
      · rw [Server.Live] at live
        simp only [Server.client, Function.update_of_ne here] at live ⊢
        exact sealing j live)
    fun fd chunk c _ found _ _ _ => sealing.decryptData (clientFind_some found).1 chunk

/-- `write_data` keeps within the output buffer. -/
def outputFits (k : Nat) (s : Server) : Event → Prop
  | .write fd env => ∀ i, clientFind s.clients fd = some i →
    spaceFits k (s.client i).waiting (s.client i).pending env.writes
  | _ => True

instance (k : Nat) (s : Server) (e : Event) : Decidable (outputFits k s e) := by
  cases e <;> unfold outputFits <;> infer_instance

/-- The assertion of `secure_queue_write` holds at each call from `write_data`. -/
def outputKept (s : Server) (e : Event) : Prop :=
  ∀ fd env, e = .write fd env → ¬ OutOfSpace (step s e)

theorem outputKept_iff {e : Event} (valid : s.QueuesValid) (sealing : s.Sealing k)
    (seals : e.Seals k) (small : queuedSmall s e) : outputKept s e ↔ outputFits k s e := by
  cases e with
  | write fd env =>
    obtain ⟨writes, ssl, deleted⟩ := env
    obtain rfl : ssl = [] := seals
    have plain : outputKept s (.write fd ⟨writes, [], deleted⟩) ↔
        ¬ OutOfSpace (writeData s fd ⟨writes, [], deleted⟩) :=
      ⟨fun kept => kept fd _ rfl, fun kept _ _ _ => kept⟩
    rw [plain]
    unfold writeData outputFits
    cases found : clientFind s.clients fd with
    | none =>
      refine iff_of_true ?_ fun i same => nomatch found.symm.trans same
      rintro ⟨t, same⟩
      cases same
    | some i =>
      dsimp only
      rw [writeLoop_space_iff _ .ok writes deleted (sealing i (clientFind_some found).1) (valid i)
        (small i found) (Nat.lt_succ_self _) fun _ => rfl, not_not]
      refine ⟨fun fits j same => ?_, fun all => all i found⟩
      obtain rfl : i = j := Option.some.inj (found.symm.trans same)
      exact fits
  | _ => exact iff_of_true (fun fd env same => nomatch same) trivial

/-- What `write_data` relies on. -/
structure Server.Writes (k : Nat) (s : Server) : Prop where
  queues : s.QueuesValid
  sealing : s.Sealing k

/-- Along every run in which TLS adds `k` bytes to each packet and no packet is
longer than the type allows, the assertion of `secure_queue_write` holds at each
call from `write_data` exactly if at each packet taken the bytes unsent, the
packet and `k` more are fewer than the buffer holds. -/
theorem output_kept_iff (db : Database) (k : Nat) (events : List Event)
    (seals : ∀ e ∈ events, e.Seals k) (small : Guarded step queuedSmall (Server.init db) events) :
    Guarded step outputKept (Server.init db) events ↔
      Guarded step (outputFits k) (Server.init db) events := by
  have start : (Server.init db).Writes k := ⟨init_queuesValid db, fun i live => absurd rfl live⟩
  refine guarded_iff_of_assumed (Guarded.and (.of_events seals _) small) start
    (fun s e t held given taken => ?_)
    fun s e held given => outputKept_iff held.queues held.sealing given.1 given.2
  have valid := held.queues.step e
  have sealing := held.sealing.step given.1
  rw [taken] at valid sealing
  exact ⟨valid, sealing⟩

end Server

/-- A request that announces 1432 bytes; its copy for the recipient is as long. -/
def longRequest : List Event :=
  packetFrom 4 .transferRequest (requestBody 101 ++ List.replicate (1432 - requestSize) 0)

/-- The client accepted at 101 is sent two requests of 1440 bytes. -/
def twoRequests : List Event :=
  connects 4 100 ++ connects 5 101 ++ longRequest ++ longRequest

/-- One would-block leaves 1440 bytes in the buffer, and the next packet is
sealed all the same. -/
def stalledWrite : Event := .write 5 ⟨[.wouldBlock], [], true⟩

theorem Ssl.plain_adds : Ssl.plain.Adds 0 := fun _ _ => rfl

theorem twoRequests_seals (writes : List SysWrite) :
    ∀ e ∈ twoRequests ++ [.write 5 ⟨writes, [], true⟩], e.Seals 0 := by
  simp [twoRequests, longRequest, connects, packetFrom, Event.Seals, Ssl.plain_adds]

/-- The socket takes the first packet in two pieces before the second is sealed. -/
def drainingWrite : Event := .write 5 ⟨[.wrote 1000, .wrote 440], [], true⟩

/-- Both requests fit if the socket takes the first, and do not if it blocks. -/
theorem output_kept_iff_both :
    (Guarded step (outputFits 0) (Server.init .fresh) (twoRequests ++ [drainingWrite]) ∧
      Guarded step outputKept (Server.init .fresh) (twoRequests ++ [drainingWrite])) ∧
    ¬ Guarded step (outputFits 0) (Server.init .fresh) (twoRequests ++ [stalledWrite]) ∧
      ¬ Guarded step outputKept (Server.init .fresh) (twoRequests ++ [stalledWrite]) := by
  have fits : Guarded step (outputFits 0) (Server.init .fresh) (twoRequests ++ [drainingWrite]) := by
    decide +kernel
  have full : ¬ Guarded step (outputFits 0) (Server.init .fresh)
      (twoRequests ++ [stalledWrite]) := by
    decide +kernel
  have kept := output_kept_iff .fresh 0 (twoRequests ++ [drainingWrite]) (twoRequests_seals _)
    (by decide +kernel)
  have stalled := output_kept_iff .fresh 0 (twoRequests ++ [stalledWrite]) (twoRequests_seals _)
    (by decide +kernel)
  exact ⟨⟨fits, kept.mpr fits⟩, full, fun held => full (stalled.mp held)⟩

/-- Without any overhead two packets do not fit after a blocked write. -/
theorem output_kept_fails :
    (∀ e ∈ twoRequests ++ [stalledWrite], e.Seals 0) ∧
      Guarded step queuedSmall (Server.init .fresh) (twoRequests ++ [stalledWrite]) ∧
      ¬ Guarded step outputKept (Server.init .fresh) (twoRequests ++ [stalledWrite]) := by
  refine ⟨twoRequests_seals _, by decide +kernel, fun guarded => ?_⟩
  have started : Run.fault? (run step (Server.init .fresh) twoRequests) = none := by
    decide +kernel
  have stopped : Run.fault? (run step (Server.init .fresh) (twoRequests ++ [stalledWrite])) =
      some .space := by
    decide +kernel
  obtain ⟨t, reached⟩ := Run.fault?_eq_none started
  obtain ⟨u, failed⟩ := Run.fault?_eq_some stopped
  rw [run_append, reached] at failed
  refine guarded.at reached _ _ rfl ⟨u, ?_⟩
  exact run_singleton_error failed

end Quickshare
