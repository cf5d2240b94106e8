import Quickshare.Client.Steps
import Quickshare.Server.Framing

/-! Reassembly on both sides. `read_data` of the client is the loop of
`decrypt_data` again, so what holds of one buffer holds of the other. -/

namespace Quickshare

open Runs Bytes

namespace Network

variable {n m : Network} {e : NetEvent} {packets : List Packet} {events : List NetEvent}

/-- The receive buffer is in bounds. -/
def InBounds (n : Network) : Prop := n.rbuf.InBounds

def Sound (n : Network) : Prop := n.rbuf.Sound

/-- A header this event completes announces a packet that fits. -/
def headerFits (n : Network) : NetEvent → Prop
  | .recv _ chunk => n.rbuf.readable chunk → ¬ n.rbuf.overlong chunk
  | _ => True

/-- Bytes that complete no packet only go into the buffer. -/
theorem step_recv_more (env : PacketEnv) {chunk : List UInt8} {buf : Buffer packetMaxSize}
    (readable : n.rbuf.readable chunk) (received : n.rbuf.receive chunk = some (false, buf)) :
    n.step (.recv env chunk) = .ok { n with rbuf := buf } := by
  have ready : 0 < chunk.length ∧ (chunk.length : Int) ≤ n.rbuf.wanted := readable
  simp [step, readBytes, ready, received]

/-- Bytes that complete a packet pass it to `analize`, and then the buffer is empty. -/
theorem step_recv_whole (env : PacketEnv) {chunk : List UInt8} {buf : Buffer packetMaxSize}
    (readable : n.rbuf.readable chunk) (received : n.rbuf.receive chunk = some (true, buf)) :
    n.step (.recv env chunk) =
      ({ n with rbuf := buf }.called.analize env).bind fun m => .ok m.rewound := by
  have ready : 0 < chunk.length ∧ (chunk.length : Int) ≤ n.rbuf.wanted := readable
  exact step_delivers (by simp [delivers, ready, received])

theorem Sound.step (sound : n.Sound) (fits : n.headerFits e) (taken : n.step e = .ok m) :
    m.Sound := by
  by_cases read : ∃ env chunk, e = .recv env chunk
  · obtain ⟨env, chunk, rfl⟩ := read
    by_cases readable : n.rbuf.readable chunk
    · obtain ⟨whole, buf, received, kept, -⟩ := Buffer.Sound.receive sound readable
      cases whole with
      | false =>
        rw [step_recv_more env readable received] at taken
        cases taken
        exact kept (fits readable)
      | true =>
        rw [step_recv_whole env readable received] at taken
        obtain ⟨k, -, done⟩ := bind_ok taken
        cases done
        exact .start rfl rfl
    · have ignored : n.step (.recv env chunk) = .ok n := if_neg readable
      rw [ignored] at taken
      cases taken
      exact sound
  · have other : ∀ env chunk, e ≠ .recv env chunk := fun env chunk same => read ⟨env, chunk, same⟩
    rw [Sound, (step_rbuf other taken).1]
    exact sound

/-- An overlong header is stored and leaves the buffer out of bounds. -/
theorem step_of_not_headerFits (sound : n.Sound) (missed : ¬ n.headerFits e) :
    ∃ m, n.step e = .ok m ∧ ¬ m.InBounds := by
  cases e with
  | recv env chunk =>
    simp only [headerFits, Classical.not_imp, not_not] at missed
    obtain ⟨readable, long⟩ := missed
    obtain ⟨whole, buf, received, -, broken⟩ := Buffer.Sound.receive sound readable
    obtain ⟨rfl, outside⟩ := broken long
    exact ⟨_, step_recv_more env readable received, outside⟩
  | _ => exact absurd trivial missed

/-- Along every run of the client its receive buffer stays in bounds exactly if
every header received fits. -/
theorem client_inBounds_iff (msg : Session) (events : List NetEvent) :
    Throughout step InBounds (init msg) events ↔ Guarded step headerFits (init msg) events := by
  have start : (init msg).Sound := .start rfl rfl
  apply throughout_iff_guarded start
  · intro n e m sound fits taken
    exact sound.step fits taken
  · intro n sound
    exact Buffer.Sound.inBounds sound
  · intro n e sound missed
    exact step_of_not_headerFits sound missed

/-- What `SSL_read` returned, all reads together. -/
def streamOf (events : List NetEvent) : List UInt8 :=
  events.flatMap fun
    | .recv _ chunk => chunk
    | _ => []

/-- `SSL_read` returns at least one byte and no more than it was asked for. -/
def cuts (n : Network) : NetEvent → Prop
  | .recv _ chunk => n.rbuf.readable chunk
  | _ => True

instance (n : Network) : (e : NetEvent) → Decidable (n.cuts e)
  | .recv _ chunk => inferInstanceAs (Decidable (n.rbuf.readable chunk))
  | .session _ _ _ | .cmd _ | .checkWrite _ | .write _ => isTrue trivial

/-- The calls made so far, `before` apart, are for the first of these packets. -/
def InOrder (n : Network) (before : List (List UInt8)) (packets : List Packet) : Prop :=
  ∃ done, done <+: packets.map Packet.wire ∧ n.calls.map Packet.wire = before ++ done

/-- If the client stops while it reads, it does in `analize`, called for the next packet. -/
def stopsInOrder (before : List (List UInt8)) (packets : List Packet) (n : Network) :
    NetEvent → Prop
  | .recv env chunk => ∀ fault, n.step (.recv env chunk) = .error fault →
    ∃ k : Network, k.analize env = .error fault ∧ k.calls = n.calls ++ [k.rbuf.packet] ∧
      k.InOrder before packets
  | _ => True

theorem InOrder.start (n : Network) (packets : List Packet) :
    n.InOrder (n.calls.map Packet.wire) packets :=
  ⟨[], List.nil_prefix, (List.append_nil _).symm⟩

theorem InOrder.next {p : Packet} {before : List (List UInt8)}
    (ordered : n.InOrder (before ++ [p.wire]) packets) : n.InOrder before (p :: packets) := by
  obtain ⟨done, front, calls⟩ := ordered
  refine ⟨p.wire :: done, (List.prefix_cons_inj _).mpr front, ?_⟩
  rw [calls, List.append_assoc]
  rfl

/-- The packets follow each other. -/
theorem stopsInOrder.next {p : Packet} {before : List (List UInt8)}
    (stops : stopsInOrder (before ++ [p.wire]) packets n e) :
    stopsInOrder before (p :: packets) n e := by
  cases e with
  | recv env chunk =>
    intro fault stopped
    obtain ⟨k, failed, one, ordered⟩ := stops fault stopped
    exact ⟨k, failed, one, ordered.next⟩
  | _ => trivial

/-- The client's `read_data` passes on the packets of the stream, once each and in
order as long as it runs, and in the end all of them. -/
theorem client_framing (awaits : n.rbuf.Awaits (streamOf events) packets)
    (small : ∀ p ∈ packets, p.size ≤ transferDataSize) (cut : Guarded step cuts n events) :
    Throughout step (fun m => m.InOrder (n.calls.map Packet.wire) packets) n events ∧
      Guarded step (stopsInOrder (n.calls.map Packet.wire) packets) n events ∧
      ∀ m, run step n events = .ok m →
        m.calls.map Packet.wire = n.calls.map Packet.wire ++ packets.map Packet.wire ∧
          m.rbuf.len = 0 ∧ m.rbuf.size = 0 := by
  have here := InOrder.start n packets
  induction events generalizing n packets with
  | nil =>
    obtain ⟨rfl, len, size⟩ := Buffer.Awaits.finished awaits
    refine ⟨here, trivial, fun m same => ?_⟩
    cases same
    exact ⟨(List.append_nil _).symm, len, size⟩
  | cons e rest ih =>
    by_cases read : ∃ env chunk, e = .recv env chunk
    · obtain ⟨env, chunk, rfl⟩ := read
      have readable : n.rbuf.readable chunk := cut.1
      have stream : streamOf (.recv env chunk :: rest) = chunk ++ streamOf rest := by
        simp [streamOf]
      rw [stream] at awaits
      rcases awaits.receive small readable with
        ⟨buf, received, later⟩ | ⟨buf, p, others, received, rfl, wire, tail⟩
      · have taken := step_recv_more env readable received
        obtain ⟨passed, stops, ended⟩ := ih later small (cut.2 _ taken) (.start _ packets)
        refine ⟨⟨here, fun m same => ?_⟩, ⟨fun fault stopped => ?_, fun m same => ?_⟩, fun m same => ?_⟩
        · cases taken.symm.trans same
          exact passed
        · cases taken.symm.trans stopped
        · cases taken.symm.trans same
          exact stops
        · simp only [run, taken] at same
          exact ended m same
      · have taken := step_recv_whole env readable received
        generalize called : { n with rbuf := buf }.called = k at taken
        have one : k.calls = n.calls ++ [k.rbuf.packet] := by
          rw [← called]
          rfl
        have held : k.rbuf.packet.wire = p.wire := by
          rw [← called]
          exact wire
        have wires {m : Network} (same : m.calls = k.calls) :
            m.calls.map Packet.wire = n.calls.map Packet.wire ++ [p.wire] := by
          rw [same, one, List.map_append, List.map_singleton, held]
        cases analized : k.analize env with
        | error fault =>
          rw [analized] at taken
          refine ⟨⟨here, fun m same => ?_⟩, ⟨fun other stopped => ?_, fun m same => ?_⟩, fun m same => ?_⟩
          · cases taken.symm.trans same
          · cases taken.symm.trans stopped
            exact ⟨k, analized, one, [p.wire], ⟨others.map Packet.wire, rfl⟩, wires rfl⟩
          · cases taken.symm.trans same
          · simp only [run, taken, Except.bind] at same
            cases same
        | ok next =>
          rw [analized] at taken
          have kept : next.calls = k.calls := analize_calls analized
          have awaits' : next.rewound.rbuf.Awaits (streamOf rest) others :=
            tail ▸ .start others rfl rfl
          obtain ⟨passed, stops, ended⟩ := ih awaits'
            (fun p member => small p (List.mem_cons_of_mem _ member)) (cut.2 _ taken) (.start _ others)
          have first : next.rewound.calls.map Packet.wire =
              n.calls.map Packet.wire ++ [p.wire] := wires kept
          rw [first] at passed stops ended
          refine ⟨⟨here, fun m same => ?_⟩, ⟨fun fault stopped => ?_, fun m same => ?_⟩, fun m same => ?_⟩
          · cases taken.symm.trans same
            exact passed.mono fun _ => InOrder.next
          · cases taken.symm.trans stopped
          · cases taken.symm.trans same
            exact stops.mono fun _ _ => stopsInOrder.next
          · simp only [run, taken, Except.bind] at same
            obtain ⟨all, empty⟩ := ended m same
            rw [List.append_assoc] at all
            exact ⟨all, empty⟩
    · have other : ∀ env chunk, e ≠ .recv env chunk := fun env chunk same => read ⟨env, chunk, same⟩
      have stream : streamOf (e :: rest) = streamOf rest := by
        cases e with
        | recv env chunk => exact absurd rfl (other env chunk)
        | _ => simp [streamOf]
      have idle : stopsInOrder (n.calls.map Packet.wire) packets n e := by
        cases e with
        | recv env chunk => exact absurd rfl (other env chunk)
        | _ => trivial
      rw [stream] at awaits
      have later {m : Network} (taken : n.step e = .ok m) :=
        ih ((step_rbuf other taken).1 ▸ awaits) small (cut.2 m taken) (.start m packets)
      refine ⟨⟨here, fun m taken => ?_⟩, ⟨idle, fun m taken => ?_⟩, fun m ran => ?_⟩
      · have passed := (later taken).1
        rwa [(step_rbuf other taken).2] at passed
      · have stops := (later taken).2.1
        rwa [(step_rbuf other taken).2] at stops
      · obtain ⟨next, taken, ran⟩ := run_cons_ok ran
        have ended := (later taken).2.2
        rw [(step_rbuf other taken).2] at ended
        exact ended m ran

end Network

/-- Along every run of the server and of a client the receive buffers stay in
bounds exactly if every header received fits. -/
theorem reassembly_inBounds_iff (db : Database) (events : List Event) (msg : Session)
    (received : List NetEvent) :
    (Throughout step Server.InBounds (Server.init db) events ∧
        Throughout Network.step Network.InBounds (.init msg) received) ↔
      Guarded step headerFits (Server.init db) events ∧
        Guarded Network.step Network.headerFits (.init msg) received :=
  and_congr (server_inBounds_iff db events) (Network.client_inBounds_iff msg received)

/-- A request to join the session without a name. -/
def joinRequest : Session := .new [] [] false

/-- A header that announces one byte more than the buffer has room for. -/
def longHeader : List UInt8 := toLE 4 0 ++ toLE 4 (transferDataSize + 1)

/-- Nothing opened, nothing written. -/
def PacketEnv.none : PacketEnv := ⟨⟨.none, false⟩, .none⟩

/-- Neither side bounds the size it is told. -/
theorem reassembly_fails :
    ¬ Throughout step Server.InBounds (Server.init .fresh) (connects 4 100 ++ [.recv 4 longHeader]) ∧
      ¬ Throughout Network.step Network.InBounds (.init joinRequest) [.recv .none longHeader] := by
  constructor
  · intro inside
    have checked : Run.passes (fun s => decide ((s.client 0).decryptBuf.size = transferDataSize + 1))
        (run step (Server.init .fresh) (connects 4 100 ++ [.recv 4 longHeader])) = true := by
      decide +kernel
    obtain ⟨s, reached, size⟩ := Run.passes_ok checked
    have bound := (inside.final reached 0).size
    rw [of_decide_eq_true size] at bound
    exact absurd bound (by decide)
  · intro inside
    have readable : (Network.init joinRequest).rbuf.readable longHeader := by decide
    have received : (Network.init joinRequest).rbuf.receive longHeader =
      some (false, ⟨(Mem.zero packetMaxSize).write 0 longHeader, 8, transferDataSize + 1⟩) := by rfl
    have bound := (inside.2 _ (Network.step_recv_more .none readable received)).size
    exact absurd bound (by decide)

/-- Where a packet of `c` is recorded, `analize_packet` is called with it in the buffer, and
once the call returns the buffer is empty. -/
def rewinds (c : Slot) (s : Server) (e : Event) : Prop :=
  (Run.state (step s e)).callsFor c ≠ s.callsFor c →
    (∃ buf, step s e = (analizePacket (s.handed c buf) c).bind fun t => .ok (t.rewound c)) ∧
    ∀ t, step s e = .ok t → (t.client c).decryptBuf.len = 0 ∧ (t.client c).decryptBuf.size = 0

/-- Where a packet is recorded, `analize` has been called with it in the buffer, and the
buffer is empty. -/
def Network.rewinds (n : Network) (e : NetEvent) : Prop :=
  ∀ m, n.step e = .ok m → m.calls ≠ n.calls →
    (∃ env buf, n.step e = ({ n with rbuf := buf }.called.analize env).bind fun k => .ok k.rewound) ∧
    m.rbuf.len = 0 ∧ m.rbuf.size = 0

theorem step_rewinds (c : Slot) (s : Server) (e : Event) : rewinds c s e := by
  intro called
  cases delivers : s.delivers e with
  | none => exact absurd (callsFor_congr (Run.state_of (step_silent delivers))) called
  | some found =>
    obtain ⟨i, u⟩ := found
    by_cases here : i = c
    · subst here
      obtain ⟨fd, chunk, buf, -, -, rfl⟩ := delivers_received delivers
      exact ⟨⟨buf, step_delivers delivers⟩, fun t taken => rewound_of_delivers delivers taken⟩
    · refine absurd ?_ called
      rw [callsFor_append (Run.state_of (step_calls delivers)), if_neg here, List.append_nil]

theorem Network.step_rewinds (n : Network) (e : NetEvent) : n.rewinds e := by
  intro m taken called
  by_cases read : ∃ env chunk, e = .recv env chunk
  · obtain ⟨env, chunk, rfl⟩ := read
    by_cases readable : n.rbuf.readable chunk
    · cases received : n.rbuf.receive chunk with
      | none =>
        have ready : 0 < chunk.length ∧ (chunk.length : Int) ≤ n.rbuf.wanted := readable
        simp [step, readBytes, ready, received] at taken
      | some result =>
        obtain ⟨whole, buf⟩ := result
        cases whole with
        | false =>
          cases (step_recv_more env readable received).symm.trans taken
          exact absurd rfl called
        | true =>
          have passed := step_recv_whole env readable received
          refine ⟨⟨env, buf, passed⟩, ?_⟩
          obtain ⟨k, -, done⟩ := bind_ok (passed.symm.trans taken)
          cases done
          exact ⟨rfl, rfl⟩
    · have ignored : n.step (.recv env chunk) = .ok n := if_neg readable
      cases ignored.symm.trans taken
      exact absurd rfl called
  · have other : ∀ env chunk, e ≠ .recv env chunk := fun env chunk same => read ⟨env, chunk, same⟩
    exact absurd (step_rbuf other taken).2 called

/-- However a stream of packets is cut into reads, each side passes its packets on
once each and in order, and has an empty buffer after each. -/
theorem framing_round_trip (packets : List Packet) (small : ∀ p ∈ packets, p.size ≤ transferDataSize) :
    (∀ s c fd events, (s.client c).decryptBuf.len = 0 → (s.client c).decryptBuf.size = 0 →
      streamOf fd events = (packets.map Packet.wire).flatten →
      Throughout step (fun s => s.serves c fd) s events → Guarded step (cuts c fd) s events →
      (Run.state (run step s events)).InOrder c (s.callsFor c) packets ∧
      Guarded step (rewinds c) s events ∧
      ∀ t, run step s events = .ok t → t.callsFor c = s.callsFor c ++ packets.map Packet.wire ∧
        (t.client c).decryptBuf.len = 0 ∧ (t.client c).decryptBuf.size = 0) ∧
    ∀ (n : Network) events, n.rbuf.len = 0 → n.rbuf.size = 0 →
      Network.streamOf events = (packets.map Packet.wire).flatten →
      Guarded Network.step Network.cuts n events →
      Throughout Network.step (fun m => m.InOrder (n.calls.map Packet.wire) packets) n events ∧
      Guarded Network.step (Network.stopsInOrder (n.calls.map Packet.wire) packets) n events ∧
      Guarded Network.step Network.rewinds n events ∧
      ∀ m, run Network.step n events = .ok m →
        m.calls.map Packet.wire = n.calls.map Packet.wire ++ packets.map Packet.wire ∧
          m.rbuf.len = 0 ∧ m.rbuf.size = 0 := by
  constructor
  · intro s c fd events len size stream serves cut
    obtain ⟨ordered, ended⟩ := server_framing (stream ▸ .start packets len size) small serves cut
    exact ⟨ordered, .always (step_rewinds c) s events, ended⟩
  · intro n events len size stream cut
    obtain ⟨ordered, stops, ended⟩ :=
      Network.client_framing (stream ▸ .start packets len size) small cut
    exact ⟨ordered, stops, .always Network.step_rewinds n events, ended⟩

/-- An answer without a body and one with four bytes. -/
def twoAnswers : List Packet :=
  [Packet.packetHdr .serverOk 0 (Mem.zero packetMaxSize),
    Packet.packetHdr .serverDeny 4 (Mem.zero packetMaxSize)]

/-- The pieces in which their bytes are read. -/
def answerPieces : List (List UInt8) :=
  [[0, 0, 0], [0, 0, 0, 0, 0], [1, 0], [0, 0, 4, 0, 0, 0], [0], [0, 0, 0]]

/-- Both sides pass on the two answers, and nothing else. -/
theorem framing_round_trip_pieces :
    let s := Run.state (run step (Server.init .fresh) (connects 4 100))
    (∃ t, run step s (answerPieces.map (.recv 4)) = .ok t ∧
      t.callsFor 0 = twoAnswers.map Packet.wire) ∧
    ∃ m, run Network.step (.init joinRequest) (answerPieces.map (.recv .none)) = .ok m ∧
      m.calls.map Packet.wire = twoAnswers.map Packet.wire := by
  intro s
  have small : ∀ p ∈ twoAnswers, p.size ≤ transferDataSize := by decide +kernel
  obtain ⟨server, client⟩ := framing_round_trip twoAnswers small
  constructor
  · have runs : Run.passes (fun _ => true) (run step s (answerPieces.map (.recv 4))) = true := by
      decide +kernel
    obtain ⟨t, reached, -⟩ := Run.passes_ok runs
    obtain ⟨-, -, ended⟩ := server s 0 4 (answerPieces.map (.recv 4)) (by decide +kernel)
      (by decide +kernel) (by decide +kernel) (by decide +kernel) (by decide +kernel)
    exact ⟨t, reached, (ended t reached).1⟩
  · have runs : (run Network.step (.init joinRequest) (answerPieces.map (.recv .none))).isOk = true := by
      decide +kernel
    obtain ⟨-, -, -, ended⟩ := client (.init joinRequest) (answerPieces.map (.recv .none)) rfl rfl
      (by decide +kernel) (by decide +kernel)
    cases reached : run Network.step (.init joinRequest) (answerPieces.map (.recv .none)) with
    | error fault =>
      rw [reached] at runs
      cases runs
    | ok m => exact ⟨m, rfl, (ended m reached).1⟩

end Quickshare
