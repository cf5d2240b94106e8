import Quickshare.Client.Steps
import Quickshare.Client.Packets
import Quickshare.Lib.Lists
import Mathlib.Data.List.Nodup

/-! What becomes of the packets the client produces. A packet is made before
`poll` and written after it; nothing keeps one for which the socket was not
writable from being overwritten. -/

namespace Quickshare

open Runs Bytes Quickshare.Lists

inductive LoopEvent where
  /-- The user asks for a session. -/
  | session (name sId : List UInt8) (opt : Bool)
  /-- The user queues a command. -/
  | cmd (cmd : TransferCmd)
  /-- One turn of the loop in `handle`. -/
  | turn (turn : Turn)

/-- `poll` finds the socket writable and no error. -/
def Poll.writes : Poll → Bool
  | .ready false _ writable => writable
  | _ => false

namespace Network

/-- The network thread is over once `handle` has returned. -/
def loopStep (n : Network) : LoopEvent → Except Abort Network
  | .session name sId opt => .ok (n.session name sId opt)
  | .cmd cmd => .ok { n with manager := (n.manager.sendCmd cmd).2 }
  | .turn turn => if n.state = .netError then .ok n else (n.handle turn).map Prod.snd

/-- Whether `convert_msg` gets a packet from `do_work` or from the session dialogue. -/
def produces (n : Network) (env : WorkEnv) : Bool :=
  match n.manager.doWork env n.wbuf.data with
  | .ok (.hasWork, _, _) => true
  | .ok (.noWork, _, _) => !n.msgQueue.isEmpty
  | _ => false

/-- For an event that produces a packet, whether the socket is then writable. -/
def attempt (n : Network) : LoopEvent → Option Bool
  | .turn turn =>
    if n.state ≠ .netError ∧ n.produces turn.work then some turn.poll.writes else none
  | _ => none

/-- The attempts of a run, in order. -/
def attempts (n : Network) : List LoopEvent → List Bool
  | [] => []
  | e :: rest => match n.loopStep e with
    | .ok m => (n.attempt e).toList ++ attempts m rest
    | .error _ => []

/-- The packets handed to `SSL_write`, each with its number. -/
def sent (n : Network) : List (List UInt8 × Nat) :=
  n.written.map fun call => (call.bytes, call.serial)

/-- The packets produced, each with its number. -/
def made (n : Network) : List (List UInt8 × Nat) := n.produced.zipIdx 1

/-- What was sent is what was produced, but for the last packet at most. -/
def Kept (n : Network) : Prop := n.sent <+: n.made ∧ n.made.length ≤ n.sent.length + 1

instance (n : Network) : Decidable n.Kept := inferInstanceAs (Decidable (_ ∧ _))

/-- Between turns nothing is half written, and the packets sent are those whose
attempt succeeded. -/
structure Sends (n : Network) (flags : List Bool) : Prop where
  len : n.wbuf.len = 0
  count : n.produced.length = flags.length
  sent : n.sent = picked n.made flags

variable {n m : Network} {flags : List Bool} {env : WorkEnv}

theorem Sends.kept_iff (sends : n.Sends flags) : n.Kept ↔ ∀ flag ∈ flags.dropLast, flag = true := by
  rw [Kept, sends.sent]
  apply picked_prefix_iff
  · have numbers : (n.made.map Prod.snd).Nodup := by
      rw [made, List.zipIdx_map_snd]
      exact List.nodup_range'
    exact List.Nodup.of_map Prod.snd numbers
  · rw [made, List.length_zipIdx, sends.count]

theorem Sends.unchanged (sends : n.Sends flags) (len : m.wbuf.len = 0)
    (produced : m.produced = n.produced) (written : m.written = n.written) : m.Sends flags where
  len := len
  count := by rw [produced, sends.count]
  sent := by
    have kept := sends.sent
    rw [Network.sent, made] at kept ⊢
    rw [written, produced, kept]

/-- The output side is the same. -/
structure SameOutput (n m : Network) : Prop where
  wbuf : m.wbuf = n.wbuf
  eventWrite : m.eventWrite = n.eventWrite
  produced : m.produced = n.produced
  written : m.written = n.written

theorem SameOutput.refl (n : Network) : SameOutput n n := ⟨rfl, rfl, rfl, rfl⟩

theorem SameOutput.trans {k : Network} (first : SameOutput n m) (second : SameOutput m k) :
    SameOutput n k where
  wbuf := second.wbuf.trans first.wbuf
  eventWrite := second.eventWrite.trans first.eventWrite
  produced := second.produced.trans first.produced
  written := second.written.trans first.written

theorem SameOutput.sends (same : SameOutput n m) (sends : n.Sends flags) : m.Sends flags :=
  sends.unchanged (by rw [same.wbuf, sends.len]) same.produced same.written

theorem analize_output {env : PacketEnv} (done : n.analize env = .ok m) : SameOutput n m := by
  unfold analize at done
  split at done
  · cases done
    unfold serverResponse
    exact ⟨rfl, rfl, rfl, rfl⟩
  · cases done
    unfold serverResponse
    exact ⟨rfl, rfl, rfl, rfl⟩
  · cases done
    unfold updateUsers
    exact ⟨rfl, rfl, rfl, rfl⟩
  · cases done
    unfold updateUsers
    exact ⟨rfl, rfl, rfl, rfl⟩
  · obtain ⟨manager, -, done⟩ := bind_ok done
    cases done
    exact ⟨rfl, rfl, rfl, rfl⟩

theorem readBytes_output {env : PacketEnv} {chunk : List UInt8}
    (done : n.readBytes env chunk = .ok m) : SameOutput n m := by
  unfold readBytes at done
  split at done
  · split at done
    · cases done
    · split at done
      · obtain ⟨k, handled, done⟩ := bind_ok done
        cases done
        obtain ⟨wbuf, eventWrite, produced, written⟩ := analize_output handled
        exact ⟨wbuf, eventWrite, produced, written⟩
      · cases done
        exact ⟨rfl, rfl, rfl, rfl⟩
  · cases done
    exact .refl n

theorem readData_output {env : PacketEnv} {reads : List SslRead}
    (done : readData env n reads = .ok m) : SameOutput n m := by
  induction reads generalizing n with
  | nil =>
    cases done
    exact .refl _
  | cons read rest ih =>
    cases read with
    | wantMore =>
      cases done
      exact .refl _
    | gone => cases done
    | other pending =>
      cases pending with
      | true => exact ih done
      | false =>
        cases done
        exact .refl _
    | bytes chunk pending =>
      obtain ⟨k, read, done⟩ := bind_ok done
      have first := readBytes_output read
      cases pending with
      | true => exact first.trans (ih done)
      | false =>
        cases done
        exact first

/-- After `check_write` a packet is ready to be written whole, or none is. -/
inductive Checked (n m : Network) : Bool → Prop
  | produced (packet : Packet) (small : packet.size ≤ transferDataSize)
      (wbuf : m.wbuf = ⟨packet, 0, packet.size + hdrSize⟩) (asked : m.eventWrite = true)
      (produced : m.produced = n.produced ++ [packet.wire]) (written : m.written = n.written) :
      Checked n m true
  | idle (len : m.wbuf.len = 0) (quiet : m.eventWrite = true → m.wbuf.size = 0)
      (produced : m.produced = n.produced) (written : m.written = n.written) : Checked n m false

theorem checked_produce (k : Network) (packet : Packet) (small : packet.size ≤ transferDataSize)
    (produced : k.produced = n.produced) (written : k.written = n.written) :
    Checked n { k.produce packet with eventWrite := true } true := by
  refine .produced packet small ?_ rfl (by rw [← produced]; rfl) written
  have bound : packet.size + hdrSize < 2 ^ 32 := by
    simp only [transferDataSize] at small
    simp only [hdrSize]
    omega
  show (⟨packet, 0, (packet.size + hdrSize) % 2 ^ 32⟩ : Buffer packetMaxSize) = _
  rw [Nat.mod_eq_of_lt bound]

theorem checkWrite_checked (len : n.wbuf.len = 0) (done : n.checkWrite env = .ok m) :
    Checked n m (n.produces env) := by
  simp only [checkWrite, len] at done
  obtain ⟨⟨going, k⟩, converted, done⟩ := bind_ok done
  cases done
  obtain ⟨work, packet, manager, worked, made⟩ := convertMsg_converted converted
  have worked : n.manager.doWork env n.wbuf.data = .ok (work, packet, manager) := worked
  cases made with
  | idle queue =>
    have none : n.produces env = false := by
      have queue : n.msgQueue = [] := queue
      simp [produces, worked, queue]
    rw [none]
    exact .idle len (fun asked => by cases asked) rfl rfl
  | session queue =>
    have some : n.produces env = true := by
      have queue : n.msgQueue = _ := queue
      simp [produces, worked, queue]
    rw [some]
    exact checked_produce _ _ (by rw [toPacket_size]; decide) rfl rfl
  | wait =>
    have none : n.produces env = false := by simp [produces, worked]
    rw [none]
    exact .idle rfl (fun _ => rfl) rfl rfl
  | work =>
    have some : n.produces env = true := by simp [produces, worked]
    rw [some]
    exact checked_produce _ _ (TransferManager.doWork_size worked) rfl rfl

/-- A packet handed to `SSL_write` whole is the one produced last. -/
theorem wrote_sends {k : Network} {packet : Packet} (sends : n.Sends flags)
    (wbuf : k.wbuf = ⟨packet, 0, packet.size + hdrSize⟩)
    (produced : k.produced = n.produced ++ [packet.wire]) (written : k.written = n.written) :
    (k.wrote (packet.size + hdrSize)).Sends (flags ++ [true]) where
  len := by simp [wrote, wbuf]
  count := by simp [wrote, produced, sends.count]
  sent := by
    have call : (k.wrote (packet.size + hdrSize)).sent =
        n.sent ++ [(packet.wire, n.produced.length + 1)] := by
      simp [wrote, Network.sent, written, produced, wbuf, Packet.wire, Nat.add_comm]
    have more : (k.wrote (packet.size + hdrSize)).made =
        n.made ++ [(packet.wire, n.produced.length + 1)] := by
      show k.produced.zipIdx 1 = _
      rw [produced, List.zipIdx_append, made, Nat.add_comm]
      rfl
    have lengths : n.made.length = flags.length := by rw [made, List.length_zipIdx, sends.count]
    rw [call, more, picked_append lengths, sends.sent]
    rfl

/-- A packet for which the socket is not writable is produced and not sent. -/
theorem unsent_sends {k : Network} {packet : Packet} (sends : n.Sends flags) (len : k.wbuf.len = 0)
    (produced : k.produced = n.produced ++ [packet.wire]) (written : k.written = n.written) :
    k.Sends (flags ++ [false]) where
  len := len
  count := by simp [produced, sends.count]
  sent := by
    have lengths : n.made.length = flags.length := by rw [made, List.length_zipIdx, sends.count]
    have same : k.sent = n.sent := by rw [Network.sent, written, Network.sent]
    have more : k.made = n.made ++ [(packet.wire, n.produced.length + 1)] := by
      show k.produced.zipIdx 1 = _
      rw [produced, List.zipIdx_append, made, Nat.add_comm]
      rfl
    rw [same, more, picked_append lengths, sends.sent]
    simp [picked]

/-- A turn adds its packet to those produced, and to those sent if the socket
was writable. -/
theorem handle_sends {turn : Turn} {going : Bool} (sends : n.Sends flags)
    (whole : turn.sslWrite = .whole) (done : n.handle turn = .ok (going, m)) :
    m.Sends (flags ++ (if n.produces turn.work then [turn.poll.writes] else [])) := by
  obtain ⟨first, checked, done⟩ := bind_ok done
  have ready := checkWrite_checked sends.len checked
  generalize n.produces turn.work = produces at ready
  -- what the poll and the reads leave is the output side as `check_write` left it
  have settled (second last : Network) (same : SameOutput first second)
      (wrote : (if turn.poll.writes = true ∧ second.eventWrite = true
        then second.writeData turn.sslWrite else .ok second) = .ok last) :
      last.Sends (flags ++ (if produces then [turn.poll.writes] else [])) := by
    cases ready with
    | produced packet small wbuf asked produced written =>
      have wbuf' := same.wbuf.trans wbuf
      have produced' := same.produced.trans produced
      have written' := same.written.trans written
      cases writes : turn.poll.writes with
      | false =>
        simp [writes] at wrote
        subst wrote
        exact unsent_sends sends (by rw [wbuf']) produced' written'
      | true =>
        have some : packet.size + hdrSize ≠ 0 := by simp [hdrSize]
        simp [writes, same.eventWrite, asked, writeData, whole, wbuf'] at wrote
        subst wrote
        exact wrote_sends sends wbuf' produced' written'
    | idle len quiet produced written =>
      have nothing : last = second := by
        split at wrote
        · rename_i asked
          have size : second.wbuf.size = 0 := by
            rw [same.wbuf]
            exact quiet (by rw [← same.eventWrite]; exact asked.2)
          simp [writeData, size] at wrote
          exact wrote.symm
        · exact (Except.ok.inj wrote).symm
      subst nothing
      simp only [Bool.false_eq_true, if_false, List.append_nil]
      exact sends.unchanged (by rw [same.wbuf, len]) (same.produced.trans produced)
        (same.written.trans written)
  split at done
  · rename_i failed
    cases done
    have ended := settled first first (.refl first) (by simp [failed, Poll.writes])
    exact ended.unchanged ended.len rfl rfl
  · rename_i readable writable failed
    cases done
    have ended := settled first first (.refl first) (by simp [failed, Poll.writes])
    exact ended.unchanged ended.len rfl rfl
  · rename_i readable writable ready
    obtain ⟨second, read, done⟩ := bind_ok done
    obtain ⟨third, wrote, done⟩ := bind_ok done
    cases done
    have same : SameOutput first second := by
      cases readable with
      | true => exact readData_output read
      | false =>
        cases read
        exact .refl _
    have writes : turn.poll.writes = writable := by rw [ready, Poll.writes]
    exact settled second m same (by rw [writes]; exact wrote)

/-- One event adds its attempt. -/
theorem loopStep_sends {e : LoopEvent} (sends : n.Sends flags)
    (whole : ∀ turn, e = .turn turn → turn.sslWrite = .whole) (taken : n.loopStep e = .ok m) :
    m.Sends (flags ++ (n.attempt e).toList) := by
  cases e with
  | session name sId opt =>
    cases taken
    have same : SameOutput n (n.session name sId opt) := by
      unfold session
      split
      · exact ⟨rfl, rfl, rfl, rfl⟩
      · exact .refl n
    simpa [attempt] using same.sends sends
  | cmd cmd =>
    cases taken
    have same : SameOutput n { n with manager := (n.manager.sendCmd cmd).2 } := ⟨rfl, rfl, rfl, rfl⟩
    simpa [attempt] using same.sends sends
  | turn turn =>
    simp only [loopStep] at taken
    by_cases ended : n.state = .netError
    · rw [if_pos ended] at taken
      cases taken
      simpa [attempt, ended] using sends
    · rw [if_neg ended] at taken
      cases done : n.handle turn with
      | error fault => simp [done, Except.map] at taken
      | ok result =>
        obtain ⟨going, k⟩ := result
        simp [done, Except.map] at taken
        subst taken
        have later := handle_sends sends (whole turn rfl) done
        cases produces : n.produces turn.work <;> simpa [attempt, ended, produces] using later

/-- In every state of a run the packets sent are those produced, but for the last
one at most, exactly if the socket is writable in every turn that produces a
packet, but for the last such turn at most. -/
theorem packets_kept_iff (msg : Session) (events : List LoopEvent)
    (whole : ∀ turn, .turn turn ∈ events → turn.sslWrite = .whole) :
    Throughout loopStep Kept (init msg) events ↔
      ∀ writable ∈ ((init msg).attempts events).dropLast, writable = true := by
  have run (n : Network) (flags : List Bool) (sends : n.Sends flags) :
      Throughout loopStep Kept n events ↔
        ∀ writable ∈ (flags ++ n.attempts events).dropLast, writable = true := by
    induction events generalizing n flags with
    | nil => simpa [attempts, Throughout] using sends.kept_iff
    | cons e rest ih =>
      rw [Throughout, sends.kept_iff, attempts]
      cases taken : n.loopStep e with
      | error fault => simp
      | ok m =>
        have later := ih (fun turn member => whole turn (List.mem_cons_of_mem _ member)) m _
          (loopStep_sends sends (fun turn same => whole turn (same ▸ List.mem_cons_self ..)) taken)
        have next : (∀ t, (.ok m : Except Abort Network) = .ok t →
            Throughout loopStep Kept t rest) ↔ Throughout loopStep Kept m rest :=
          ⟨fun all => all m rfl, fun held t same => Except.ok.inj same ▸ held⟩
        rw [next, later, List.append_assoc]
        apply and_iff_right_of_imp
        intro all flag member
        exact all flag (mem_dropLast_append member)
  have start : (init msg).Sends [] := ⟨rfl, rfl, rfl⟩
  simpa using run (init msg) [] start

end Network

/-- No file and no time to send one. -/
def WorkEnv.none : WorkEnv := ⟨fun _ => .none, 0, 0, .none⟩

/-- Every path names a file of one byte. -/
def WorkEnv.oneByte : WorkEnv := { WorkEnv.none with files := fun _ => .some ⟨[1], 1⟩ }

/-- Send the file `a` to one client. -/
def fileRequest : TransferCmd :=
  .request (((Mem.zero _).write 0 (ascii "a")).storeInt64 (2 * fileNameLen) 101)

def Turn.quiet (work : WorkEnv) (writable : Bool) : Turn :=
  ⟨work, .ready false false writable, [], ⟨⟨.none, false⟩, .none⟩, .whole⟩

/-- The request to join is written at once, and so is that for a file asked for later. -/
theorem packets_kept_iff_two :
    let events : List LoopEvent := [.turn (.quiet .none true), .cmd fileRequest,
      .turn (.quiet .oneByte true), .turn (.quiet .none true)]
    Throughout Network.loopStep Network.Kept (.init (.new [] [] false)) events ∧
    (run Network.loopStep (.init (.new [] [] false)) events).map
      (fun n => n.sent.map fun packet => (packet.1.length, packet.2)) = .ok [(48, 1), (152, 2)] := by
  intro events
  constructor
  · apply (Network.packets_kept_iff _ _ ?_).mpr
    · decide +kernel
    · intro turn member
      simp [events] at member
      rcases member with rfl | rfl | rfl <;> rfl
  · decide +kernel

/-- The socket is not writable when the request to join is made, and the user
sends a file before the next turn: the request to join is lost. -/
theorem packets_kept_fails : ¬ ∀ events : List LoopEvent,
    (∀ turn, .turn turn ∈ events → turn.sslWrite = .whole) →
      Throughout Network.loopStep Network.Kept (.init (.new [] [] false)) events := by
  intro kept
  let events : List LoopEvent := [.turn (.quiet .none false), .cmd fileRequest,
    .turn (.quiet .oneByte true)]
  have whole : ∀ turn, LoopEvent.turn turn ∈ events → turn.sslWrite = .whole := by
    intro turn member
    simp [events] at member
    rcases member with rfl | rfl <;> rfl
  have lost : ((run Network.loopStep (.init (.new [] [] false)) events).toOption.any fun n =>
      ¬ n.Kept) = true := by decide +kernel
  cases ended : run Network.loopStep (.init (.new [] [] false)) events with
  | error fault => simp [ended, Except.toOption] at lost
  | ok n =>
    simp [ended, Except.toOption] at lost
    exact lost ((kept events whole).final ended)

end Quickshare
