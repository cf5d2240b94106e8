import Quickshare.Server.StepRules

/-! Packet reassembly. The size field of a header is taken as the peer sent it,
so the read position stays inside the packet buffer exactly as long as no
header announces more than the buffer holds. -/

namespace Quickshare

open Runs

/-- What keeps every access through `b` inside its bytes: the position, the end
of the packet and of the range handed to `SSL_read`. -/
structure Buffer.InBounds (b : Buffer packetMaxSize) : Prop where
  len : b.len ≤ packetMaxSize
  size : b.size + hdrSize ≤ packetMaxSize
  read : (b.len : Int) + b.wanted ≤ packetMaxSize

/-- The bytes of one `SSL_read` complete a header too large for the buffer. -/
def Buffer.overlong (b : Buffer packetMaxSize) (chunk : List UInt8) : Prop :=
  b.len + chunk.length = hdrSize ∧
    packetMaxSize < Packet.size (b.data.write b.len chunk) + hdrSize

/-- `SSL_read` returns these bytes. -/
def Buffer.readable (b : Buffer packetMaxSize) (chunk : List UInt8) : Prop :=
  0 < chunk.length ∧ (chunk.length : Int) ≤ b.wanted

instance (b : Buffer packetMaxSize) (chunk : List UInt8) : Decidable (b.readable chunk) :=
  inferInstanceAs (Decidable (_ ∧ _))

/-- The position never passes the end of the packet, nor that the buffer's. -/
structure Buffer.Sound (b : Buffer packetMaxSize) : Prop where
  len_le : b.len ≤ b.size + hdrSize
  size_le : b.size + hdrSize ≤ packetMaxSize

namespace Buffer

variable {b buf : Buffer packetMaxSize} {chunk : List UInt8} {whole : Bool}

theorem Sound.wanted_eq (sound : b.Sound) : b.wanted = ((hdrSize + b.size - b.len : Nat) : Int) := by
  have len := sound.len_le
  have size := sound.size_le
  simp only [hdrSize, packetMaxSize] at len size
  rw [wanted, Int.bmod_eq_of_le] <;> simp only [hdrSize] <;> omega

theorem Sound.inBounds (sound : b.Sound) : b.InBounds where
  len := sound.len_le.trans sound.size_le
  size := sound.size_le
  read := by
    have len := sound.len_le
    have size := sound.size_le
    rw [sound.wanted_eq]
    omega

theorem Sound.start (len : b.len = 0) (size : b.size = 0) : b.Sound where
  len_le := by omega
  size_le := by simp [size, hdrSize, packetMaxSize]

/-- Readable bytes fit, and only an overlong header spoils the buffer. -/
theorem Sound.receive (sound : b.Sound) (readable : b.readable chunk) :
    ∃ whole buf, b.receive chunk = some (whole, buf) ∧
      (¬ b.overlong chunk → buf.Sound) ∧
      (b.overlong chunk → whole = false ∧ ¬ buf.InBounds) := by
  have len := sound.len_le
  have size := sound.size_le
  have wanted := readable.2
  rw [sound.wanted_eq] at wanted
  have fits : ¬ packetMaxSize < b.len + chunk.length := by omega
  simp only [Buffer.receive, if_neg fits]
  refine ⟨_, _, rfl, fun bounded => ?_, fun long => ?_⟩
  · by_cases header : b.len + chunk.length = hdrSize
    · have small : ¬ packetMaxSize < Packet.size (b.data.write b.len chunk) + hdrSize :=
        fun large => bounded ⟨header, large⟩
      simp only [if_pos header]
      exact ⟨by simp only; omega, by simp only; omega⟩
    · simp only [if_neg header]
      exact ⟨by simp only; omega, size⟩
  · obtain ⟨header, large⟩ := long
    simp only [header, if_true]
    refine ⟨?_, fun inside => ?_⟩
    · simp only [decide_eq_false_iff_not]
      simp only [packetMaxSize, hdrSize] at large ⊢
      omega
    · have size := inside.size
      simp only at size
      omega

end Buffer

variable {s t : Server} {c i : Slot} {fd : Int} {chunk : List UInt8}

/-- Every receive buffer of the server is in bounds, free slots included. -/
def Server.InBounds (s : Server) : Prop := ∀ i, (s.client i).decryptBuf.InBounds

def Server.Sound (s : Server) : Prop := ∀ i, (s.client i).decryptBuf.Sound

/-- Every header this event completes announces a packet that fits. -/
def headerFits (s : Server) : Event → Prop
  | .recv fd chunk => ∀ c, clientFind s.clients fd = some c → (s.client c).secured →
    (s.client c).decryptBuf.readable chunk → ¬ (s.client c).decryptBuf.overlong chunk
  | _ => True

theorem Server.Sound.of_client (sound : s.Sound)
    (client : ∀ i, (s.client i).decryptBuf.Sound → (t.client i).decryptBuf.Sound) : t.Sound :=
  fun i => client i (sound i)

theorem Server.Sound.modify (sound : s.Sound) (f : Client → Client)
    (client : (f (s.client i)).decryptBuf.Sound) : (s.modify i f).Sound := by
  refine sound.of_client fun j kept => ?_
  by_cases here : j = i
  · subst here
    rw [client_modify_self]
    exact client
  · rwa [client_modify_of_ne _ _ here]

theorem sound_rule : StepRule Server.Sound fun _ => True :=
  .of_clients (fun s t same sound => sound.of_client fun i kept => by rwa [same.decryptBuf])
    (fun s i d sound drains => sound.modify (fun _ => d) (by rw [drains.rest]; exact sound i))
    (fun s fd sound => sound.of_client fun i kept => by
      by_cases found : clientFind s.clients fd = some i
      · simpa [Server.client, Server.closed, clientClose_self found, Client.freed] using kept
      · simpa [Server.client, Server.closed, clientClose_of_ne found] using kept)
    (fun s i fd sound => sound.modify _ (sound i))
    (fun s i sound _ => sound.modify _ (sound i))

theorem Server.Sound.take {clients : ClientList} {now : ClientId} {ssl : Ssl} (sound : s.Sound)
    (done : clientInit s.clients now ssl = some (i, clients)) : Server.Sound { s with clients } := by
  obtain ⟨-, rfl⟩ := clientInit_some done
  have taken : Server.Sound (s.modify i (clientConfigure now ssl)) :=
    sound.modify _ (.start rfl rfl)
  exact taken

theorem Handled.sound (handled : Handled c s t) (sound : s.Sound) : t.Sound :=
  sound.of_client fun i kept =>
    ⟨by rw [handled.len, handled.size]; exact kept.len_le, by rw [handled.size]; exact kept.size_le⟩

theorem Server.Sound.decryptData (sound : s.Sound)
    (readable : (s.client c).decryptBuf.readable chunk)
    (fits : ¬ (s.client c).decryptBuf.overlong chunk) :
    Ends Server.Sound (fun _ => True) (Quickshare.decryptData s c chunk) := by
  obtain ⟨whole, buf, received, kept, -⟩ := (sound c).receive readable
  have moved : (s.received c buf).Sound := sound.modify _ (kept fits)
  refine decryptData_ends trivial (fun buf' same => ?_) fun buf' same => ?_
  · cases received.symm.trans same
    exact moved
  · cases received.symm.trans same
    exact (analizePacket_touches (s.handed c buf) c).mono
      (fun t _ handled => (handled.sound moved).modify _ (.start rfl rfl))
      fun _ _ => trivial

theorem Server.Sound.step (sound : s.Sound) {e : Event} (met : headerFits s e) :
    Ends Server.Sound (fun _ => True) (Quickshare.step s e) :=
  sound_rule.step sound e (fun _ _ _ _ _ _ taken => sound.take taken)
    fun fd chunk c same found secured positive wanted => by
      subst same
      exact sound.decryptData ⟨positive, wanted⟩ (met c found secured ⟨positive, wanted⟩)

/-- An overlong header is stored and leaves the buffer out of bounds. -/
theorem step_of_not_headerFits {e : Event} (sound : s.Sound) (missed : ¬ headerFits s e) :
    ∃ t, step s e = .ok t ∧ ¬ t.InBounds := by
  cases e with
  | recv fd chunk =>
    simp only [headerFits, not_forall, not_not] at missed
    obtain ⟨c, found, secured, readable, long⟩ := missed
    obtain ⟨whole, buf, received, -, broken⟩ := (sound c).receive readable
    obtain ⟨rfl, outside⟩ := broken long
    refine ⟨s.received c buf, ?_, fun inside => outside ?_⟩
    · have read : step s (.recv fd chunk) = decryptData s c chunk := by
        simp only [step, readData, found]
        exact if_pos ⟨secured, readable.1, readable.2⟩
      rw [read, decryptData_eq, received]
    · have here := inside c
      rwa [Server.received, Server.client_modify_self] at here
  | _ => exact absurd trivial missed

/-- Along every run the receive buffers stay in bounds exactly if every header
received fits. -/
theorem server_inBounds_iff (db : Database) (events : List Event) :
    Throughout step Server.InBounds (Server.init db) events ↔
      Guarded step headerFits (Server.init db) events := by
  have start : (Server.init db).Sound := fun i => .start rfl rfl
  refine throughout_iff_guarded start (fun s e t sound met taken => ?_)
    (fun s sound i => (sound i).inBounds) fun s e sound missed => step_of_not_headerFits sound missed
  have kept := sound.step met
  rw [taken] at kept
  exact kept

end Quickshare
