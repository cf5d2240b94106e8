import Quickshare.Server.Lockstep
import Quickshare.Server.Contents
import Quickshare.Server.WriteLoop
import Mathlib.Data.List.Nodup

/-! Stale output. A ring slot is handed out with the packet it held before.
Most senders write the whole packet, but `send_transfer_state` leaves the
recipients of its header and `send_session_users` the unused names and the
number it counts from. Where these two send nothing, free slots never show. -/

namespace Quickshare

open Runs Bytes

/-! Queues -/

/-- The same ring with the same bytes waiting; free cells may differ. -/
structure Queue.SameWaiting (q q' : Queue Packet) : Prop where
  valid : q.Valid
  head : q'.head = q.head
  tail : q'.tail = q.tail
  len : q'.len = q.len
  count : q'.count = q.count
  wires : q'.contents.map Packet.wire = q.contents.map Packet.wire

namespace Queue.SameWaiting

variable {q q' r : Queue Packet} {x : Packet}

theorem refl (valid : q.Valid) : q.SameWaiting q := ⟨valid, rfl, rfl, rfl, rfl, rfl⟩

theorem valid_right (same : q.SameWaiting q') : q'.Valid where
  power := by
    rw [same.len]
    exact same.valid.power
  count_le := by
    rw [same.len, same.count]
    exact same.valid.count_le
  tail_lt := by
    rw [same.len, same.tail]
    exact same.valid.tail_lt
  head_eq := by
    rw [same.len, same.count, same.tail, same.head]
    exact same.valid.head_eq

theorem rooms : KeepsRoom Queue.SameWaiting := fun _ _ same => ⟨same.count, same.len⟩

theorem full (same : q.SameWaiting q') : q'.full = q.full := by
  simp only [Queue.full, same.count, same.len]

/-- Packets with the same bytes keep the queues alike, whatever their slots held. -/
theorem pushed (same : q.SameWaiting q') (room : q.full ≠ true) {f g : Packet → Packet}
    (wire : ∀ old old', (g old').wire = (f old).wire) :
    (q.pushed f).SameWaiting (q'.pushed g) where
  valid := same.valid.pushed room f
  head := by simp only [Queue.pushed, Queue.fill, same.head, same.len]
  tail := same.tail
  len := same.len
  count := by simp only [Queue.pushed, Queue.fill, same.count]
  wires := by
    have room' : q'.full ≠ true := by
      rw [same.full]
      exact room
    rw [same.valid.pushed_contents room, same.valid_right.pushed_contents room', List.map_append,
      List.map_append, same.wires, List.map_singleton, List.map_singleton, wire]

theorem reset (same : q.SameWaiting q') (zero : Packet) :
    (q.reset zero).SameWaiting (q'.reset zero) where
  valid := same.valid.reset zero
  head := rfl
  tail := rfl
  len := same.len
  count := rfl
  wires := by rw [Queue.reset_contents, Queue.reset_contents]

/-- Both queues are empty, or give packets with the same bytes. -/
theorem dequeue (same : q.SameWaiting q') :
    (q.dequeue = none ∧ q'.dequeue = none) ∨ ∃ p r p' r', q.dequeue = some (p, r) ∧
      q'.dequeue = some (p', r') ∧ p'.wire = p.wire ∧ r.SameWaiting r' := by
  have emptied : q'.empty = q.empty := by simp only [Queue.empty, same.count]
  by_cases none : q.empty = true
  · exact .inl ⟨if_pos none, if_pos (emptied.trans none)⟩
  · have none' : q'.empty ≠ true := by
      rw [emptied]
      exact none
    have taken : q.dequeue = some (q.items q.tail,
      { q with tail := (q.tail + 1) &&& (q.len - 1), count := q.count - 1 }) := if_neg none
    have taken' : q'.dequeue = some (q'.items q'.tail,
      { q' with tail := (q'.tail + 1) &&& (q'.len - 1), count := q'.count - 1 }) := if_neg none'
    have wires := same.wires
    rw [same.valid.dequeue_contents taken, same.valid_right.dequeue_contents taken', List.map_cons,
      List.map_cons] at wires
    obtain ⟨first, rest⟩ := List.cons.inj wires
    refine .inr ⟨_, _, _, _, taken, taken', first, same.valid.dequeue taken, same.head, ?_,
      same.len, ?_, rest⟩
    · simp only [same.tail, same.len]
    · simp only [same.count]

end Queue.SameWaiting

/-! One client in both runs -/

/-- The same client, with the same bytes waiting in its queue. -/
structure Client.SameOutput (c d : Client) : Prop where
  bare : d.bare = c.bare
  queue : c.msgQueue.SameWaiting d.msgQueue

/-- The client with another queue. -/
def Client.withQueue (c : Client) (q : Queue Packet) : Client := { c with msgQueue := q }

section Client

variable {c d : Client} {q : Queue Packet}

theorem Client.SameOutput.eq (same : c.SameOutput d) : d = c.withQueue d.msgQueue := by
  obtain ⟨id, fd, state, sessionId, name, msgQueue, decryptBuf, secure⟩ := d
  have bare := same.bare
  simp only [Client.bare, Client.mk.injEq, true_and] at bare
  obtain ⟨rfl, rfl, rfl, rfl, rfl, rfl, rfl⟩ := bare
  rfl

theorem Client.withQueue_same (c : Client) (same : c.msgQueue.SameWaiting q) :
    c.SameOutput (c.withQueue q) := ⟨rfl, same⟩

/-- Writing and sealing look at no queue. -/
theorem writeBytes_queue (writes : List SysWrite) (c : Client) (q : Queue Packet) :
    writeBytes writes (c.withQueue q) = ((writeBytes writes c).1,
      (writeBytes writes c).2.1.withQueue q, (writeBytes writes c).2.2) := by
  induction writes generalizing c with
  | nil =>
    have secure : (c.withQueue q).secure = c.secure := rfl
    simp only [writeBytes, secure]
    split <;> rfl
  | cons result rest ih =>
    have secure : (c.withQueue q).secure = c.secure := rfl
    simp only [writeBytes, secure]
    split
    · rfl
    · cases result with
      | wouldBlock => rfl
      | failed => rfl
      | wrote n =>
        dsimp only
        split
        · rfl
        · exact ih ((c.acted .write).written (min n c.secure.encryptedBuf.len))

theorem secureQueueWrite_queue (bytes : List UInt8) (c : Client) (q : Queue Packet) :
    secureQueueWrite (c.withQueue q) bytes = (secureQueueWrite c bytes).map (·.withQueue q) := by
  have secure : (c.withQueue q).secure = c.secure := rfl
  simp only [secureQueueWrite, secure]
  split <;> rfl

theorem queueAll_queue (pieces : List (List UInt8)) (c : Client) (q : Queue Packet) :
    pieces.foldlM secureQueueWrite (c.withQueue q) =
      (pieces.foldlM secureQueueWrite c).map (·.withQueue q) := by
  induction pieces generalizing c with
  | nil => rfl
  | cons piece rest ih =>
    rw [List.foldlM_cons, List.foldlM_cons, secureQueueWrite_queue]
    cases secureQueueWrite c piece with
    | error fault => rfl
    | ok d => exact ih d

/-- Results with a client, which is put back on another queue. -/
def onQueue {Rest : Type} (q : Queue Packet) (r : Bool × Client × Rest) : Bool × Client × Rest :=
  (r.1, r.2.1.withQueue q, r.2.2)

theorem drainBio_queue (record : List UInt8) (bio : Option Nat) (c : Client) (q : Queue Packet) :
    drainBio (c.withQueue q) record bio =
      (drainBio c record bio).map fun r => (r.1, r.2.withQueue q) := by
  cases bio with
  | none =>
    simp only [drainBio]
    rw [queueAll_queue]
    cases List.foldlM secureQueueWrite c (bioPieces record.length record) <;> rfl
  | some stop =>
    simp only [drainBio]
    rw [queueAll_queue]
    cases List.foldlM secureQueueWrite c ((bioPieces record.length record).take stop) <;> rfl

theorem sslWrote_queue (plain : List UInt8) (bio : Option Nat) (c : Client) (q : Queue Packet) :
    sslWrote (c.withQueue q) plain bio =
      (sslWrote c plain bio).map fun r => (r.1, r.2.withQueue q) := by
  have secure : (c.withQueue q).secure = c.secure := rfl
  simp only [sslWrote, secure]
  cases c.secure.ssl with
  | none => rfl
  | some ssl =>
    let sealed : Client := { c with secure := { c.secure with
      ssl := some { ssl with sealed := ssl.sealed ++ [plain] } } }
    exact drainBio_queue (ssl.record ssl.sealed.length plain) bio sealed q

theorem encryptLoop_queue (ssl : List SslWrite) (data : List UInt8) (c : Client)
    (q : Queue Packet) :
    encryptLoop ssl data (c.withQueue q) = (encryptLoop ssl data c).map (onQueue q) := by
  induction ssl generalizing data c with
  | nil =>
    simp only [encryptLoop]
    split
    · rfl
    · rw [sslWrote_queue]
      cases sslWrote c data none <;> rfl
  | cons result rest ih =>
    have secure : (c.withQueue q).secure = c.secure := rfl
    simp only [encryptLoop, secure]
    split
    · rfl
    · cases result with
      | moreIo => rfl
      | failed =>
        dsimp only
        split <;> rfl
      | wrote n bio =>
        dsimp only
        split
        · rfl
        · rw [sslWrote_queue]
          cases sslWrote c (data.take n) bio with
          | error fault => rfl
          | ok r =>
            obtain ⟨drained, d⟩ := r
            cases drained with
            | false => rfl
            | true => exact ih (data.drop n) d

theorem Packet.size_of_wire {p p' : Packet} (wire : p'.wire = p.wire) : p'.size = p.size := by
  have lengths := congrArg List.length wire
  simp only [Packet.wire, Mem.read_length] at lengths
  omega

theorem encrypt_queue {p p' : Packet} (wire : p'.wire = p.wire) (ssl : List SslWrite) (c : Client)
    (q : Queue Packet) : encrypt p' (c.withQueue q) ssl = (encrypt p c ssl).map (onQueue q) := by
  simp only [encrypt, wire, Packet.size_of_wire wire]
  split
  · rfl
  · exact encryptLoop_queue ssl p.wire (c.acted .encrypt) q

/-- The same result for clients with the same bytes waiting. -/
def SameResult {First Rest : Type} (x y : First × Client × Rest) : Prop :=
  y.1 = x.1 ∧ x.2.1.SameOutput y.2.1 ∧ y.2.2 = x.2.2

end Client

/-! Plans -/

/-- Every packet of the plan is written whole, whatever its slot held. -/
def Plan.Whole (plan : Plan) : Prop :=
  ∀ entry ∈ plan, ∀ old old', (entry.2 old').wire = (entry.2 old).wire

namespace Plan.Whole

variable {s : Server} {first second : Plan} {Item : Type}

theorem nil : Plan.Whole [] := fun _ member => absurd member List.not_mem_nil

theorem append (left : first.Whole) (right : second.Whole) : Plan.Whole (first ++ second) := by
  intro entry member
  rcases List.mem_append.mp member with here | there
  · exact left entry here
  · exact right entry there

theorem single (i : Slot) (p : Packet) : Plan.Whole [(i, fun _ => p)] := by
  intro entry member old old'
  rw [List.mem_singleton.mp member]

/-- A bare header is its own wire. -/
theorem response (c : Slot) (type : PacketType) : Plan.Whole [(c, Packet.packetHdr type 0)] := by
  intro entry member old old'
  rw [List.mem_singleton.mp member]
  have size (p : Packet) : Packet.size (Packet.packetHdr type 0 p) = 0 :=
    Packet.size_packetHdr type p (by decide)
  simp only [Packet.wire, size]
  apply List.map_congr_left
  intro k member
  rw [Nat.zero_add]
  exact Packet.byte_header type 0 old old' (List.mem_range.mp member)

theorem copies (p : Packet) (key : Item → ClientId) (items : List Item) :
    Plan.Whole (toConnected s key (fun _ _ => p) items) := by
  intro entry member old old'
  obtain ⟨x, _, found⟩ := List.mem_flatMap.mp member
  cases looked : clientFindById s.clients (key x) with
  | none => simp [looked] at found
  | some i =>
    have same : entry = (i, fun _ => p) := by simpa [looked] using found
    rw [same]

theorem alike (whole : first.Whole) : Plan.Alike Queue.SameWaiting first first := by
  induction first with
  | nil => exact .nil
  | cons head rest ih =>
    refine .cons ⟨rfl, fun q q' room same => ?_⟩ (ih fun entry member => ?_)
    · exact same.pushed room (whole head (List.mem_cons_self ..))
    · exact whole entry (List.mem_cons_of_mem _ member)

end Plan.Whole

end Quickshare
