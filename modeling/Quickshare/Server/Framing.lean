import Quickshare.Server.Bounds

/-! Framing. The receive buffer collects exactly the packets whose bytes make
up the stream, however the stream is cut into reads. -/

namespace Quickshare

open Runs Bytes

/-- The first `len` bytes of `p` have arrived. -/
structure Buffer.Holds (b : Buffer packetMaxSize) (p : Packet) : Prop where
  data : b.data.read 0 b.len = p.read 0 b.len
  size : b.size = if b.len < hdrSize then 0 else p.size
  less : b.len < hdrSize + p.size

/-- What a buffer still has to receive: nothing, or the rest of a packet and more. -/
inductive Buffer.Awaits (b : Buffer packetMaxSize) (stream : List UInt8) : List Packet → Prop
  | idle (len : b.len = 0) (size : b.size = 0) (empty : stream = []) : b.Awaits stream []
  | amid (holds : b.Holds p) (rest : stream = p.wire.drop b.len ++ (later.map Packet.wire).flatten) :
      b.Awaits stream (p :: later)

namespace Buffer

variable {b buf : Buffer packetMaxSize} {p : Packet} {chunk later rest : List UInt8}

theorem Holds.start (p : Packet) (len : b.len = 0) (size : b.size = 0) : b.Holds p where
  data := by rw [len]; rfl
  size := by rw [len, size]; rfl
  less := by rw [len]; simp [hdrSize]

theorem Holds.sound (holds : b.Holds p) (small : hdrSize + p.size ≤ packetMaxSize) : b.Sound := by
  have size := holds.size
  have less := holds.less
  by_cases header : b.len < hdrSize
  · rw [if_pos header] at size
    exact ⟨by omega, by rw [size]; simp [hdrSize, packetMaxSize]⟩
  · rw [if_neg header] at size
    exact ⟨by omega, by omega⟩

/-- A read stops where the packet does. -/
theorem Holds.fits (holds : b.Holds p) (small : hdrSize + p.size ≤ packetMaxSize)
    (readable : b.readable chunk) : b.len + chunk.length ≤ hdrSize + p.size := by
  have size := holds.size
  have wanted := readable.2
  rw [(holds.sound small).wanted_eq] at wanted
  have less := holds.less
  by_cases header : b.len < hdrSize
  · rw [if_pos header] at size
    omega
  · rw [if_neg header] at size
    omega

/-- The bytes read are the next ones of the packet. -/
theorem Holds.next (holds : b.Holds p) (small : hdrSize + p.size ≤ packetMaxSize)
    (readable : b.readable chunk) (stream : chunk ++ later = p.wire.drop b.len ++ rest) :
    chunk = p.read b.len chunk.length ∧
      later = p.wire.drop (b.len + chunk.length) ++ rest := by
  obtain ⟨left, whole⟩ := Nat.exists_eq_add_of_le (holds.fits small readable)
  have tail : p.wire.drop b.len = p.read b.len chunk.length ++ p.read (b.len + chunk.length) left := by
    rw [Packet.wire, whole, Nat.add_assoc, Mem.read_drop, Nat.zero_add, Mem.read_add]
  have end' : p.wire.drop (b.len + chunk.length) = p.read (b.len + chunk.length) left := by
    rw [Packet.wire, whole, Mem.read_drop, Nat.zero_add]
  rw [tail, List.append_assoc] at stream
  obtain ⟨first, second⟩ := List.append_inj stream (by simp)
  exact ⟨first, by rw [second, end']⟩

/-- After a read the buffer holds more of the packet, or all of it. -/
theorem Holds.receive (holds : b.Holds p) (small : hdrSize + p.size ≤ packetMaxSize)
    (readable : b.readable chunk) (next : chunk = p.read b.len chunk.length) :
    (∃ buf, b.receive chunk = some (false, buf) ∧ buf.Holds p ∧
      buf.len = b.len + chunk.length) ∨
    (∃ buf, b.receive chunk = some (true, buf) ∧ buf.packet.wire = p.wire ∧
      hdrSize + p.size = b.len + chunk.length) := by
  have fits := holds.fits small readable
  have inside : ¬ packetMaxSize < b.len + chunk.length := by omega
  have data : (b.data.write b.len chunk).read 0 (b.len + chunk.length) =
      p.read 0 (b.len + chunk.length) := by
    have old : (b.data.write b.len chunk).read 0 b.len = b.data.read 0 b.len :=
      b.data.read_write_apart chunk (.inl (by omega))
    have new : (b.data.write b.len chunk).read b.len chunk.length = chunk :=
      b.data.read_write chunk (Nat.not_lt.mp inside)
    rw [Mem.read_add, Mem.read_add, old, Nat.zero_add, new, ← next, holds.data]
  -- the size field is complete exactly when the header is
  have header (seen : hdrSize ≤ b.len + chunk.length) :
      Packet.size (b.data.write b.len chunk) = p.size := by
    obtain ⟨more, total⟩ := Nat.exists_eq_add_of_le seen
    have same := congrArg (fun bytes => (bytes.take hdrSize).drop 4) data
    simp only [total] at same
    rw [Mem.read_take _ _ (Nat.le_add_right ..), Mem.read_take _ _ (Nat.le_add_right ..)] at same
    have field : (b.data.write b.len chunk).read 4 4 = p.read 4 4 := by
      simpa [Mem.read_drop _ 0 4 4] using same
    rw [Packet.size, Mem.load, field]
    rfl
  have size : (if b.len + chunk.length = hdrSize then Packet.size (b.data.write b.len chunk)
      else b.size) = if b.len + chunk.length < hdrSize then 0 else p.size := by
    have old := holds.size
    by_cases exact : b.len + chunk.length = hdrSize
    · rw [if_pos exact, if_neg (by omega), header (by omega)]
    · rw [if_neg exact, old]
      by_cases short : b.len + chunk.length < hdrSize
      · rw [if_pos short, if_pos (by omega)]
      · have past : ¬ b.len < hdrSize := by
          intro before
          rw [if_pos before] at old
          have wanted := readable.2
          rw [(holds.sound small).wanted_eq] at wanted
          omega
        rw [if_neg short, if_neg past]
  simp only [Buffer.receive, if_neg inside, size]
  by_cases whole : b.len + chunk.length = hdrSize + p.size
  · right
    have seen : ¬ b.len + chunk.length < hdrSize := by omega
    refine ⟨⟨b.data.write b.len chunk, b.len + chunk.length, p.size⟩, ?_, ?_, whole.symm⟩
    · have complete : b.len + chunk.length = p.size + hdrSize := by omega
      rw [if_neg seen]
      simp only [complete, decide_true]
    · rw [Packet.wire, Packet.wire, Buffer.packet, header (by omega), ← whole, data]
  · left
    have more : ¬ b.len + chunk.length =
        (if b.len + chunk.length < hdrSize then 0 else p.size) + hdrSize := by
      split <;> omega
    refine ⟨⟨b.data.write b.len chunk, b.len + chunk.length,
      if b.len + chunk.length < hdrSize then 0 else p.size⟩, ?_, ⟨data, rfl, ?_⟩, rfl⟩
    · rw [decide_eq_false more]
    · dsimp only
      omega

theorem Awaits.start (packets : List Packet) (len : b.len = 0) (size : b.size = 0) :
    b.Awaits (packets.map Packet.wire).flatten packets := by
  cases packets with
  | nil => exact .idle len size rfl
  | cons p rest => exact .amid (.start p len size) (by rw [len]; rfl)

/-- Packets whose bytes have all been read are all complete. -/
theorem Awaits.finished {packets : List Packet} (awaits : b.Awaits [] packets) :
    packets = [] ∧ b.len = 0 ∧ b.size = 0 := by
  cases awaits with
  | idle len size _ => exact ⟨rfl, len, size⟩
  | amid holds rest =>
    rename_i p later
    have less := holds.less
    have left := congrArg List.length rest
    simp [Packet.wire] at left
    omega

/-- A read brings the current packet further or completes it. -/
theorem Awaits.receive {packets : List Packet} (awaits : b.Awaits (chunk ++ later) packets)
    (small : ∀ p ∈ packets, p.size ≤ transferDataSize) (readable : b.readable chunk) :
    (∃ buf, b.receive chunk = some (false, buf) ∧ buf.Awaits later packets) ∨
    ∃ buf p rest, b.receive chunk = some (true, buf) ∧ packets = p :: rest ∧
      buf.packet.wire = p.wire ∧ later = (rest.map Packet.wire).flatten := by
  cases awaits with
  | idle len size empty =>
    have some := readable.1
    simp [(List.append_eq_nil_iff.mp empty).1] at some
  | amid holds next =>
    rename_i p rest
    have fits : hdrSize + p.size ≤ packetMaxSize := by
      have bound := small p (List.mem_cons_self ..)
      simp only [hdrSize, packetMaxSize, transferDataSize] at bound ⊢
      omega
    obtain ⟨bytes, remaining⟩ := holds.next fits readable next
    rcases holds.receive fits readable bytes with
      ⟨buf, received, holds', len⟩ | ⟨buf, received, wire, whole⟩
    · left
      exact ⟨buf, received, .amid holds' (by rw [len, remaining])⟩
    · right
      have tail : later = (rest.map Packet.wire).flatten := by
        rw [remaining, ← whole, List.drop_of_length_le (by simp [Packet.wire]), List.nil_append]
      exact ⟨buf, p, rest, received, rfl, wire, tail⟩

end Buffer

variable {s t : Server} {c : Slot} {fd : Int} {packets : List Packet} {events : List Event}

/-- The bytes of the packets of `c` passed to `analize_packet` so far. -/
def Server.callsFor (s : Server) (c : Slot) : List (List UInt8) :=
  (s.calls.filter (·.1 = c)).map (·.2.wire)

/-- What `SSL_read` returns on `fd`, all reads together. -/
def streamOf (fd : Int) (events : List Event) : List UInt8 :=
  events.flatMap fun
    | .recv other chunk => if other = fd then chunk else []
    | _ => []

/-- `SSL_read` on `fd` returns at least one byte and no more than it was asked for. -/
def cuts (c : Slot) (fd : Int) (s : Server) : Event → Prop
  | .recv other chunk => other = fd → (s.client c).decryptBuf.readable chunk
  | _ => True

instance (c : Slot) (fd : Int) (s : Server) : (e : Event) → Decidable (cuts c fd s e)
  | .recv other chunk =>
    inferInstanceAs (Decidable (other = fd → (s.client c).decryptBuf.readable chunk))
  | .accept _ | .handshake _ | .wantMore _ _ | .write _ _ | .close _ _ => isTrue trivial

/-- `c` is the connected client of `fd`, past its handshake. -/
def Server.serves (s : Server) (c : Slot) (fd : Int) : Prop :=
  clientFind s.clients fd = some c ∧ (s.client c).secured = true

instance (s : Server) (c : Slot) (fd : Int) : Decidable (s.serves c fd) :=
  inferInstanceAs (Decidable (_ ∧ _))

/-- Handling a packet of another client leaves the buffer of `c` alone. -/
theorem analizePacket_buffer {i : Slot} (other : c ≠ i) (s : Server) :
    Ends (fun t => (t.client c).decryptBuf = (s.client c).decryptBuf) (fun _ => True)
      (analizePacket s i) := by
  have rule : HandlerRule i (fun t => (t.client c).decryptBuf = (s.client c).decryptBuf)
      fun _ => True := {
    sends := by
      intro t plan db r held sends
      exact sends.ends.mono (fun _ _ same => (same.decryptBuf c).trans held) fun _ _ => trivial
    frame := fun _ _ _ held => held
    fail := fun _ _ _ => trivial
    terminated := by
      intro t held
      rw [Server.terminated, Server.client_modify_of_ne _ _ other]
      exact held
    completed := by
      intro t session name opened held
      rw [Server.completed, Server.client_modify_of_ne _ _ other]
      exact held }
  exact rule.analizePacket rfl

theorem buffer_rule (c : Slot) (b : Buffer packetMaxSize) :
    StepRule (fun s => (s.client c).decryptBuf = b) fun _ => True := by
  have modified (s : Server) (i : Slot) (f : Client → Client)
      (kept : (f (s.client i)).decryptBuf = (s.client i).decryptBuf)
      (held : (s.client c).decryptBuf = b) : ((s.modify i f).client c).decryptBuf = b := by
    by_cases here : c = i
    · subst here
      rw [Server.client_modify_self, kept, held]
    · rw [Server.client_modify_of_ne _ _ here, held]
  refine .of_clients ?_ ?_ ?_ ?_ ?_
  · intro s t same held
    rw [same.decryptBuf, held]
  · intro s i d held drains
    exact modified s i (fun _ => d) (by rw [drains.rest]) held
  · intro s fd held
    by_cases found : clientFind s.clients fd = some c
    · simpa [Server.client, Server.closed, clientClose_self found, Client.freed] using held
    · simpa [Server.client, Server.closed, clientClose_of_ne found] using held
  · intro s i fd held
    exact modified s i _ rfl held
  · intro s i held _
    exact modified s i _ rfl held

/-- What is not read for `c` leaves its buffer alone. -/
theorem step_buffer (served : clientFind s.clients fd = some c) {e : Event} (other : ∀ chunk, e ≠ .recv fd chunk) :
    Ends (fun t => (t.client c).decryptBuf = (s.client c).decryptBuf) (fun _ => True) (step s e) := by
  obtain ⟨live, mine⟩ := clientFind_some served
  refine (buffer_rule c (s.client c).decryptBuf).step rfl e ?_ ?_
  · intro conn i clients _ _ _ taken
    obtain ⟨empty, rfl⟩ := clientInit_some taken
    have apart : c ≠ i := by
      rintro rfl
      exact live empty
    have kept := s.clients.modify_of_ne (clientConfigure conn.now conn.ssl) apart
    exact congrArg Client.decryptBuf kept
  · intro fd' chunk i same found _ _ _
    have apart : c ≠ i := by
      rintro rfl
      have theirs := (clientFind_some found).2
      exact other chunk (by rw [same, ← theirs, mine])
    have kept (buf : Buffer packetMaxSize) :
        ((s.received i buf).client c).decryptBuf = (s.client c).decryptBuf := by
      rw [Server.received, Server.client_modify_of_ne _ _ apart]
    refine decryptData_ends trivial (fun buf _ => kept buf) fun buf _ => ?_
    refine (analizePacket_buffer apart (s.handed i buf)).mono (fun t _ held => ?_) fun _ _ => trivial
    rw [Server.rewound, Server.client_modify_of_ne _ _ apart, held]
    exact kept buf

/-- An event that is no read for `c` handles no packet for it. -/
theorem delivers_other (served : clientFind s.clients fd = some c) {e : Event} (other : ∀ chunk, e ≠ .recv fd chunk)
    {i : Slot} (delivers : s.delivers e = some (i, t)) : i ≠ c := by
  obtain ⟨fd', chunk, buf, same, found, -⟩ := delivers_received delivers
  rintro rfl
  have mine := (clientFind_some served).2
  have theirs := (clientFind_some found).2
  exact other chunk (by rw [same, ← theirs, mine])

/-- Once its packet is handled a buffer is empty. -/
theorem rewound_of_delivers {e : Event} {u : Server} {i : Slot} (delivers : s.delivers e = some (i, t))
    (taken : step s e = .ok u) :
    (u.client i).decryptBuf.len = 0 ∧ (u.client i).decryptBuf.size = 0 := by
  rw [step_delivers delivers] at taken
  cases ended : analizePacket t i with
  | error failed => simp [ended, Except.bind] at taken
  | ok v =>
    rw [ended] at taken
    cases taken
    rw [Server.rewound, Server.client_modify_self]
    exact ⟨rfl, rfl⟩

theorem delivers_recv {chunk : List UInt8} (serves : s.serves c fd)
    (readable : (s.client c).decryptBuf.readable chunk) :
    s.delivers (.recv fd chunk) = match (s.client c).decryptBuf.receive chunk with
      | some (true, buf) => some (c, s.handed c buf)
      | _ => none := by
  simp only [Server.delivers, serves.1]
  exact if_pos ⟨serves.2, readable⟩

theorem step_recv_more {chunk : List UInt8} {buf : Buffer packetMaxSize} (serves : s.serves c fd)
    (readable : (s.client c).decryptBuf.readable chunk)
    (received : (s.client c).decryptBuf.receive chunk = some (false, buf)) :
    step s (.recv fd chunk) = .ok (s.received c buf) := by
  simp only [step, readData, serves.1]
  rw [if_pos ⟨serves.2, readable⟩, decryptData_eq, received]

/-! What is passed to `analize_packet` -/

/-- However the computation ends, nothing is passed to `analize_packet`. -/
def KeepsCalls (s : Server) (r : Run Server) : Prop :=
  Ends (fun t => t.calls = s.calls) (fun failed => failed.2.calls = s.calls) r

theorem Sends.keepsCalls {plan : Plan} {db : Database} {r : Run Server}
    (sends : Sends s plan db r) : KeepsCalls s r := by
  have same := sends.calls
  cases r <;> exact same

/-- A handler does not call `analize_packet` again. -/
theorem analizePacket_calls (s : Server) (c : Slot) : KeepsCalls s (analizePacket s c) := by
  have rule : HandlerRule c (fun t => t.calls = s.calls) fun failed => failed.2.calls = s.calls := {
    sends := fun t plan db r held sends =>
      sends.keepsCalls.mono (fun _ _ same => same.trans held) fun _ same => same.trans held
    frame := fun _ _ _ held => held
    fail := fun _ _ held => held
    terminated := fun _ held => held
    completed := fun _ _ _ _ held => held }
  exact rule.analizePacket rfl

theorem closeClient_calls (s : Server) (fd : Int) (deleted : Bool) :
    KeepsCalls s (closeClient s fd deleted) := by
  rw [closeClient_eq]
  split
  · dsimp only
    split
    · rfl
    · rename_i i _
      have left : KeepsCalls s (leaveSession { s with epoll := s.epoll.erase fd } i) :=
        (leaveSession_sends { s with epoll := s.epoll.erase fd } i).keepsCalls
      exact Ends.bind left fun t same => same
  · rfl

theorem calls_rule (calls : List (Slot × Packet)) :
    StepRule (fun s => s.calls = calls) fun failed => failed.2.calls = calls where
  fail := fun _ _ _ held => held
  drain := fun _ _ _ held _ => held
  close := fun s fd deleted held => Ends.mono (closeClient_calls s fd deleted)
    (fun _ _ same => same.trans held) fun _ same => same.trans held
  frame := fun _ _ _ held => held
  setFd := fun _ _ _ held => held
  secured := fun _ _ held _ => held

/-- An event that completes no packet calls nobody. -/
theorem step_silent {e : Event} (silent : s.delivers e = none) : KeepsCalls s (step s e) := by
  by_cases read : ∃ fd chunk, e = .recv fd chunk
  · obtain ⟨fd, chunk, rfl⟩ := read
    refine (recv_not_delivers silent).mono (fun t _ same => ?_) fun _ same => congrArg Server.calls same
    rcases same with rfl | ⟨i, buf, rfl⟩ <;> rfl
  · exact (calls_rule s.calls).step rfl e (fun _ _ _ _ _ _ _ => rfl)
      fun fd chunk _ same => absurd ⟨fd, chunk, same⟩ read

/-- The packet an event completes is passed on once, and the buffer is empty after it. -/
theorem step_calls {e : Event} {i : Slot} (delivers : s.delivers e = some (i, t)) :
    Ends (fun u => u.calls = s.calls ++ [(i, (t.client i).decryptBuf.packet)])
      (fun failed => failed.2.calls = s.calls ++ [(i, (t.client i).decryptBuf.packet)]) (step s e) := by
  have called : t.calls = s.calls ++ [(i, (t.client i).decryptBuf.packet)] := by
    obtain ⟨fd, chunk, buf, -, -, rfl⟩ := delivers_received delivers
    rfl
  rw [step_delivers delivers, ← called]
  exact Ends.bind (analizePacket_calls t i) fun u same => same

/-- What holds however a computation ends holds of the state it ends in. -/
theorem Run.state_of {good : Server → Prop} {r : Run Server}
    (ends : Ends good (fun failed => good failed.2) r) : good (Run.state r) := by
  cases r <;> exact ends

theorem callsFor_congr (same : t.calls = s.calls) : t.callsFor c = s.callsFor c := by
  rw [Server.callsFor, same, Server.callsFor]

theorem callsFor_append {i : Slot} {p : Packet} (one : t.calls = s.calls ++ [(i, p)]) :
    t.callsFor c = s.callsFor c ++ if i = c then [p.wire] else [] := by
  rw [Server.callsFor, one, List.filter_append, List.map_append, Server.callsFor]
  by_cases here : i = c <;> simp [here]

/-- An event that is no read for `c` passes on no packet of its. -/
theorem step_callsFor_other (served : clientFind s.clients fd = some c) {e : Event}
    (other : ∀ chunk, e ≠ .recv fd chunk) :
    Ends (fun t => t.callsFor c = s.callsFor c) (fun failed => failed.2.callsFor c = s.callsFor c)
      (step s e) := by
  cases delivers : s.delivers e with
  | none =>
    exact Ends.mono (step_silent delivers) (fun _ _ => callsFor_congr) fun _ => callsFor_congr
  | some found =>
    obtain ⟨i, t⟩ := found
    have apart : i ≠ c := delivers_other served other delivers
    have same {u : Server} (one : u.calls = s.calls ++ [(i, (t.client i).decryptBuf.packet)]) :
        u.callsFor c = s.callsFor c := by
      rw [callsFor_append one, if_neg apart, List.append_nil]
    exact (step_calls delivers).mono (fun _ _ => same) fun _ => same

/-- The calls made so far for `c`, `before` apart, are for the first of these packets. -/
def Server.InOrder (s : Server) (c : Slot) (before : List (List UInt8)) (packets : List Packet) :
    Prop :=
  ∃ done, done <+: packets.map Packet.wire ∧ s.callsFor c = before ++ done

theorem Server.InOrder.start (s : Server) (c : Slot) (packets : List Packet) :
    s.InOrder c (s.callsFor c) packets :=
  ⟨[], List.nil_prefix, (List.append_nil _).symm⟩

/-- Along a run that serves `c`, its packets are passed on once each and in order
as long as the server runs, and in the end all of them are. -/
theorem server_framing (awaits : (s.client c).decryptBuf.Awaits (streamOf fd events) packets)
    (small : ∀ p ∈ packets, p.size ≤ transferDataSize)
    (serves : Throughout step (fun s => s.serves c fd) s events)
    (cut : Guarded step (cuts c fd) s events) :
    (Run.state (run step s events)).InOrder c (s.callsFor c) packets ∧
      ∀ t, run step s events = .ok t →
        t.callsFor c = s.callsFor c ++ packets.map Packet.wire ∧
          (t.client c).decryptBuf.len = 0 ∧ (t.client c).decryptBuf.size = 0 := by
  induction events generalizing s packets with
  | nil =>
    obtain ⟨rfl, len, size⟩ := Buffer.Awaits.finished awaits
    refine ⟨.start s c [], fun t same => ?_⟩
    cases same
    exact ⟨(List.append_nil _).symm, len, size⟩
  | cons e rest ih =>
    have here := serves.1
    by_cases mine : ∃ chunk, e = .recv fd chunk
    · obtain ⟨chunk, rfl⟩ := mine
      have readable := cut.1 rfl
      have stream : streamOf fd (.recv fd chunk :: rest) = chunk ++ streamOf fd rest := by
        simp [streamOf]
      rw [stream] at awaits
      have delivers := delivers_recv here readable
      have self (buf : Buffer packetMaxSize) :
          (s.received c buf).client c = { s.client c with decryptBuf := buf } :=
        s.client_modify_self c _
      rcases awaits.receive small readable with
        ⟨buf, received, later⟩ | ⟨buf, p, others, received, rfl, wire, tail⟩
      · have taken := step_recv_more here readable received
        have ended := ih (by rwa [self]) small (serves.2 _ taken) (cut.2 _ taken)
        rw [callsFor_congr (s := s) (t := s.received c buf) rfl] at ended
        simpa only [run, taken] using ended
      · rw [received] at delivers
        have call := step_calls delivers
        have held : ((s.handed c buf).client c).decryptBuf.packet.wire = p.wire := by
          rw [Server.handed_client, self]
          exact wire
        have one {u : Server} (one : u.calls = s.calls ++
            [(c, ((s.handed c buf).client c).decryptBuf.packet)]) :
            u.callsFor c = s.callsFor c ++ [p.wire] := by
          rw [callsFor_append one, if_pos rfl, held]
        cases taken : step s (.recv fd chunk) with
        | error failed =>
          rw [taken] at call
          simp only [run, taken]
          refine ⟨⟨[p.wire], ⟨others.map Packet.wire, rfl⟩, one call⟩, fun t same => ?_⟩
          cases same
        | ok u =>
          rw [taken] at call
          have last := rewound_of_delivers delivers taken
          have later : (u.client c).decryptBuf.Awaits (streamOf fd rest) others :=
            tail ▸ .start others last.1 last.2
          obtain ⟨⟨done, front, calls⟩, ended⟩ := ih later
            (fun p member => small p (List.mem_cons_of_mem _ member)) (serves.2 u taken)
            (cut.2 u taken)
          rw [one call, List.append_assoc] at calls
          simp only [run, taken]
          refine ⟨⟨p.wire :: done, List.prefix_cons_inj _ |>.mpr front, calls⟩, fun t same => ?_⟩
          obtain ⟨all, empty⟩ := ended t same
          rw [one call, List.append_assoc] at all
          exact ⟨all, empty⟩
    · have other : ∀ chunk, e ≠ .recv fd chunk := fun chunk same => mine ⟨chunk, same⟩
      have stream : streamOf fd (e :: rest) = streamOf fd rest := by
        cases e with
        | recv fd' chunk =>
          have ne : fd' ≠ fd := fun same => other chunk (by rw [same])
          simp [streamOf, ne]
        | _ => simp [streamOf]
      have kept := step_buffer here.1 other
      have calls := step_callsFor_other here.1 other
      rw [stream] at awaits
      cases taken : step s e with
      | error failed =>
        rw [taken] at calls
        simp only [run, taken]
        refine ⟨⟨[], List.nil_prefix, calls.trans (List.append_nil _).symm⟩, fun t same => ?_⟩
        cases same
      | ok u =>
        rw [taken] at kept calls
        have same : (u.client c).decryptBuf = (s.client c).decryptBuf := kept
        have quiet : u.callsFor c = s.callsFor c := calls
        have ended := ih (same ▸ awaits) small (serves.2 u taken) (cut.2 u taken)
        rw [quiet] at ended
        simpa only [run, taken] using ended

end Quickshare
