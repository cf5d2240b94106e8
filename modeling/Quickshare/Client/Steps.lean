import Quickshare.Client.Network

/-! The loop of `handle` as a state machine, one event for each thing that can
happen to the network thread, with what the user does in between. -/

namespace Quickshare

open Runs Bytes

inductive NetEvent where
  /-- The user asks for a session. -/
  | session (name sId : List UInt8) (opt : Bool)
  /-- The user queues a command. -/
  | cmd (cmd : TransferCmd)
  | checkWrite (env : WorkEnv)
  /-- One `SSL_read` returned these bytes. -/
  | recv (env : PacketEnv) (chunk : List UInt8)
  /-- `poll` reported the socket writable. -/
  | write (result : SslTaken)

/-- What `read_data` reads before its loop ends. -/
def readEvents (env : PacketEnv) : List SslRead → List NetEvent
  | [] | .wantMore :: _ | .gone :: _ => []
  | .other pending :: rest => if pending then readEvents env rest else []
  | .bytes chunk pending :: rest => .recv env chunk :: if pending then readEvents env rest else []

def Turn.events (turn : Turn) : List NetEvent :=
  .checkWrite turn.work :: match turn.poll with
    | .failed | .ready true _ _ => []
    | .ready false readable writable =>
      (if readable then readEvents turn.packets turn.reads else []) ++
        if writable then [.write turn.sslWrite] else []

namespace Network

def step (n : Network) : NetEvent → Except Abort Network
  | .session name sId opt => .ok (n.session name sId opt)
  | .cmd cmd => .ok { n with manager := (n.manager.sendCmd cmd).2 }
  | .checkWrite env => n.checkWrite env
  | .recv env chunk => n.readBytes env chunk
  | .write result => if n.eventWrite then n.writeData result else .ok n

variable {n m : Network}

theorem readData_run {env : PacketEnv} {reads : List SslRead} (done : readData env n reads = .ok m) :
    run step n (readEvents env reads) = .ok m := by
  induction reads generalizing n with
  | nil => exact done
  | cons read rest ih =>
    cases read with
    | wantMore => exact done
    | gone => cases done
    | other pending =>
      cases pending with
      | true => exact ih done
      | false => exact done
    | bytes chunk pending =>
      obtain ⟨next, taken, done⟩ := bind_ok done
      simp only [readEvents, run, step, taken]
      cases pending with
      | true => exact ih done
      | false => exact done

/-- A turn of the loop is a run of its events; where the loop ends the network
is marked as failed. -/
theorem handle_run {turn : Turn} {going : Bool} (done : n.handle turn = .ok (going, m)) :
    ∃ next, run step n turn.events = .ok next ∧
      m = if going then next else { next with state := .netError } := by
  obtain ⟨first, checked, done⟩ := bind_ok done
  simp only [Turn.events, run, step, checked]
  cases poll : turn.poll with
  | failed =>
    rw [poll] at done
    cases done
    exact ⟨first, rfl, rfl⟩
  | ready error readable writable =>
    rw [poll] at done
    cases error with
    | true =>
      cases done
      exact ⟨first, rfl, rfl⟩
    | false =>
      obtain ⟨second, read, done⟩ := bind_ok done
      obtain ⟨third, wrote, done⟩ := bind_ok done
      cases done
      have reads : run step first (if readable = true then readEvents turn.packets turn.reads
          else []) = .ok second := by
        cases readable with
        | true => exact readData_run read
        | false => exact read
      refine ⟨m, ?_, rfl⟩
      dsimp only
      rw [run_append, reads]
      cases writable with
      | true =>
        simp only [true_and] at wrote
        simp only [Except.bind, if_true, run, step]
        cases asked : second.eventWrite <;> simp [asked] at wrote ⊢ <;> simp [wrote]
      | false => simpa [Except.bind, run] using wrote

/-- What `convert_msg` made of the work `do_work` reported. -/
inductive Converted (n k : Network) (packet : Packet) : WorkState → Bool → Network → Prop
  | idle (queue : n.msgQueue = []) : Converted n k packet .noWork false k
  | session (queue : n.msgQueue = msg :: rest) :
      Converted n k packet .noWork true ({ k with msgQueue := rest }.produce (msg.toPacket packet))
  | wait : Converted n k packet .waitWork true { k with wbuf := { k.wbuf with len := 0, size := 0 } }
  | work : Converted n k packet .hasWork true (k.produce packet)

theorem convertMsg_converted {env : WorkEnv} {going : Bool}
    (done : n.convertMsg env = .ok (going, m)) : ∃ work packet manager,
      n.manager.doWork env n.wbuf.data = .ok (work, packet, manager) ∧
      Converted n { n with manager, wbuf := { n.wbuf with data := packet } } packet work going m := by
  obtain ⟨⟨work, packet, manager⟩, worked, done⟩ := bind_ok done
  refine ⟨work, packet, manager, worked, ?_⟩
  cases work with
  | noWork =>
    cases queue : n.msgQueue with
    | nil =>
      simp only [queue] at done
      cases done
      exact .idle queue
    | cons msg rest =>
      simp only [queue] at done
      cases done
      exact .session queue
  | waitWork =>
    cases done
    exact .wait
  | hasWork =>
    cases done
    exact .work

/-- Only what is read changes the receive buffer, and nothing else is passed to `analize`. -/
theorem step_rbuf {e : NetEvent} (other : ∀ env chunk, e ≠ .recv env chunk)
    (taken : n.step e = .ok m) : m.rbuf = n.rbuf ∧ m.calls = n.calls := by
  cases e with
  | session name sId opt =>
    cases taken
    unfold session
    split <;> exact ⟨rfl, rfl⟩
  | cmd cmd =>
    cases taken
    exact ⟨rfl, rfl⟩
  | checkWrite env =>
    simp only [step, checkWrite] at taken
    split at taken
    · obtain ⟨⟨going, k⟩, converted, done⟩ := bind_ok taken
      cases done
      obtain ⟨work, packet, manager, -, made⟩ := convertMsg_converted converted
      cases made <;> exact ⟨rfl, rfl⟩
    · cases taken
      exact ⟨rfl, rfl⟩
  | recv env chunk => exact absurd rfl (other env chunk)
  | write result =>
    simp only [step, writeData] at taken
    split at taken
    · split at taken
      · cases taken
        exact ⟨rfl, rfl⟩
      · split at taken
        · cases taken
        · cases taken
        · cases taken
          exact ⟨rfl, rfl⟩
        · cases taken
          exact ⟨rfl, rfl⟩
    · cases taken
      exact ⟨rfl, rfl⟩

/-- The state in which `analize` sees the packet that a read completes. -/
def delivers (n : Network) : NetEvent → Option Network
  | .recv _ chunk =>
    if 0 < chunk.length ∧ (chunk.length : Int) ≤ n.rbuf.wanted then
      match n.rbuf.receive chunk with
      | some (true, rbuf) => some { n with rbuf }.called
      | _ => none
    else none
  | _ => none

/-- The receive buffer is ready for the next packet. -/
def rewound (n : Network) : Network := { n with rbuf := { n.rbuf with len := 0, size := 0 } }

/-- A read that completes a packet calls `analize` for it, and then empties the buffer. -/
theorem step_delivers {env : PacketEnv} {chunk : List UInt8} {k : Network}
    (delivers : n.delivers (.recv env chunk) = some k) :
    n.step (.recv env chunk) = (k.analize env).bind fun m => .ok m.rewound := by
  simp only [Network.delivers] at delivers
  simp only [step, readBytes]
  split at delivers
  · rename_i readable
    rw [if_pos readable]
    split at delivers
    · rename_i rbuf received
      cases delivers
      rw [received]
      rfl
    · cases delivers
  · cases delivers

/-- Handling a packet calls `analize` no second time. -/
theorem analize_calls {env : PacketEnv} (done : n.analize env = .ok m) : m.calls = n.calls := by
  unfold analize at done
  split at done
  · cases done
    rfl
  · cases done
    rfl
  · cases done
    rfl
  · cases done
    rfl
  · obtain ⟨manager, -, done⟩ := bind_ok done
    cases done
    rfl

end Network

end Quickshare
