import Quickshare.Client.Sending

/-! A packet that `SSL_write` takes in parts. `write_data` counts from `wbuf.len`
in whole packets, and `check_write` only asks for `EVENT_WRITE` when nothing is
left of a packet. -/

namespace Quickshare

open Runs Bytes

namespace Network

variable {n m k : Network} {packet : Packet} {results : List Nat}

/-- Calls of `write_data` for which `SSL_write` returns these results. -/
def writeOut (n : Network) : List Nat → Except Abort Network
  | [] => .ok n
  | r :: rest => do
    let n ← n.writeData (.some r)
    n.writeOut rest

/-- The positions of the bytes taken between two states, counted from the packet. -/
def passed (n m : Network) : List Nat :=
  (m.written.drop n.written.length).flatMap fun call => List.range' call.offset call.bytes.length

/-- The positions passed are those of the packet, in order. -/
def Covers (n : Network) (packet : Packet) (results : List Nat) : Prop :=
  ∃ m, n.writeOut results = .ok m ∧ m.wbuf.len = 0 ∧ m.wbuf.size = 0 ∧
    n.passed m = List.range (packet.size + hdrSize)

/-- Where a part of the packet is left, `check_write` asks for `EVENT_WRITE`. -/
def KeepsAsking (n : Network) (results : List Nat) : Prop :=
  ∀ first, first <+: results → ∀ k, n.writeOut first = .ok k → k.wbuf.len ≠ 0 →
    ∀ env m, k.checkWrite env = .ok m → m.eventWrite = true

/-- `SSL_write` takes some of the bytes it is given. -/
theorem writeData_some {r : Nat} (some : 0 < r) (fits : n.wbuf.len + r ≤ n.wbuf.size) :
    n.writeData (.some r) = .ok (n.wrote r) := by
  obtain ⟨p, rfl⟩ : ∃ p, r = p + 1 := ⟨r - 1, by omega⟩
  have asked : n.wbuf.size - n.wbuf.len ≠ 0 := by omega
  have all : min (p + 1) (n.wbuf.size - n.wbuf.len) = p + 1 := by omega
  simp only [writeData, if_neg asked, all]

theorem wrote_written (n : Network) (r : Nat) : (n.wrote r).written = n.written ++
    [⟨n.produced.length, packetMaxSize * n.wbuf.len, n.wbuf.data.read (packetMaxSize * n.wbuf.len) r⟩] :=
  rfl

theorem wrote_part {r : Nat} (less : n.wbuf.len + r < n.wbuf.size) :
    (n.wrote r).wbuf = { n.wbuf with len := n.wbuf.len + r } := if_neg (by omega)

theorem wrote_rest {r : Nat} (all : n.wbuf.len + r = n.wbuf.size) :
    (n.wrote r).wbuf = { n.wbuf with len := 0, size := 0 } := if_pos all

/-- What `write_data` has logged stays logged. -/
theorem writeOut_written (done : n.writeOut results = .ok m) : n.written <+: m.written := by
  induction results generalizing n with
  | nil =>
    cases done
    exact List.prefix_rfl
  | cons r rest ih =>
    obtain ⟨k, wrote, done⟩ := bind_ok done
    refine List.IsPrefix.trans ?_ (ih done)
    unfold writeData at wrote
    dsimp only at wrote
    split at wrote
    · cases wrote
      exact List.prefix_rfl
    · split at wrote
      · cases wrote
      · cases wrote
      · cases wrote
        exact List.prefix_append ..
      · cases wrote
        exact List.prefix_append ..

/-- Taken at once, a packet is passed as it is. -/
theorem covers_whole (wbuf : n.wbuf = ⟨packet, 0, packet.size + hdrSize⟩) :
    n.Covers packet [packet.size + hdrSize] := by
  have all : n.wbuf.len + (packet.size + hdrSize) = n.wbuf.size := by
    rw [wbuf]
    exact Nat.zero_add _
  have reset := wrote_rest all
  refine ⟨n.wrote (packet.size + hdrSize), ?_, by rw [reset], by rw [reset], ?_⟩
  · rw [writeOut, writeData_some (by simp [hdrSize]) all.le]
    rfl
  · simp [passed, wrote_written, wbuf, List.range_eq_range']

/-- Taken at once, a packet never has a part left. -/
theorem keepsAsking_whole (wbuf : n.wbuf = ⟨packet, 0, packet.size + hdrSize⟩) :
    n.KeepsAsking [packet.size + hdrSize] := by
  intro first before k wrote part
  rcases List.prefix_cons_iff.mp before with rfl | ⟨rest, rfl, last⟩
  · cases wrote
    simp [wbuf] at part
  · obtain rfl := List.prefix_nil.mp last
    obtain ⟨m, done, len, -⟩ := covers_whole wbuf
    cases done.symm.trans wrote
    exact absurd len part

/-- Behind a part of `r` bytes the next call starts `r` packets later. -/
theorem not_covers {r more : Nat} {rest : List Nat}
    (wbuf : n.wbuf = ⟨packet, 0, packet.size + hdrSize⟩) (first : 0 < r) (second : 0 < more)
    (fits : r + more ≤ packet.size + hdrSize) : ¬ n.Covers packet (r :: more :: rest) := by
  rintro ⟨m, done, -, -, passed⟩
  have less : n.wbuf.len + r < n.wbuf.size := by
    simp only [wbuf]
    omega
  have part := wrote_part less
  have next : (n.wrote r).wbuf.len + more ≤ (n.wrote r).wbuf.size := by
    rw [part]
    simp only [wbuf]
    omega
  rw [writeOut, writeData_some first less.le] at done
  obtain ⟨behind, logged⟩ := writeOut_written
    (show ((n.wrote r).wrote more).writeOut rest = .ok m by
      simpa only [bind, Except.bind, writeOut, writeData_some second next] using done)
  have calls : n.passed m = List.range' 0 r ++ List.range' (packetMaxSize * r) more ++
      behind.flatMap fun call => List.range' call.offset call.bytes.length := by
    rw [Network.passed, ← logged, wrote_written, wrote_written, part]
    simp [wbuf]
  have here : (List.range (packet.size + hdrSize))[r]? = some (packetMaxSize * r) := by
    rw [← passed, calls, List.append_assoc, List.getElem?_append_right (by simp),
      List.getElem?_append_left (by simpa using second)]
    simp [second]
  rw [List.getElem?_range (by omega)] at here
  have same : r = packetMaxSize * r := Option.some.inj here
  simp only [packetMaxSize] at same
  omega

/-- With a part left `check_write` clears `EVENT_WRITE`. -/
theorem not_keepsAsking {r : Nat} {rest : List Nat}
    (wbuf : n.wbuf = ⟨packet, 0, packet.size + hdrSize⟩) (first : 0 < r)
    (less : r < packet.size + hdrSize) : ¬ n.KeepsAsking (r :: rest) := by
  intro keeps
  have less : n.wbuf.len + r < n.wbuf.size := by
    simp only [wbuf]
    omega
  have part := wrote_part less
  have some : (n.wrote r).wbuf.len ≠ 0 := by
    rw [part]
    simp only [wbuf]
    omega
  have wrote : n.writeOut [r] = .ok (n.wrote r) := by
    rw [writeOut, writeData_some first less.le]
    rfl
  have checked : (n.wrote r).checkWrite WorkEnv.none =
      .ok { n.wrote r with eventWrite := false } := by
    rw [checkWrite, if_neg some]
    rfl
  have asked := keeps [r] (by simp) _ wrote some _ _ checked
  cases asked

/-- The first part is all of a packet, or there is a second one. -/
theorem parts_cases (positive : ∀ r ∈ results, 0 < r) (all : results.sum = packet.size + hdrSize) :
    results = [packet.size + hdrSize] ∨ ∃ r more rest, results = r :: more :: rest ∧ 0 < r ∧
      0 < more ∧ r + more ≤ packet.size + hdrSize := by
  cases results with
  | nil => simp [hdrSize] at all
  | cons r rest =>
    cases rest with
    | nil => exact .inl (by simpa using all)
    | cons more rest =>
      simp only [List.sum_cons] at all
      exact .inr ⟨r, more, rest, rfl, positive r (by simp), positive more (by simp), by omega⟩

theorem head_parts {r more : Nat} {rest : List Nat} (second : 0 < more)
    (fits : r + more ≤ packet.size + hdrSize) :
    (r :: more :: rest).head? ≠ some (packet.size + hdrSize) := by
  rw [List.head?_cons, ne_eq, Option.some.injEq]
  omega

theorem covers_iff (wbuf : n.wbuf = ⟨packet, 0, packet.size + hdrSize⟩)
    (positive : ∀ r ∈ results, 0 < r) (all : results.sum = packet.size + hdrSize) :
    n.Covers packet results ↔ results.head? = some (packet.size + hdrSize) := by
  rcases parts_cases positive all with rfl | ⟨r, more, rest, rfl, first, second, fits⟩
  · exact iff_of_true (covers_whole wbuf) rfl
  · exact iff_of_false (not_covers wbuf first second fits) (head_parts second fits)

theorem keepsAsking_iff (wbuf : n.wbuf = ⟨packet, 0, packet.size + hdrSize⟩)
    (positive : ∀ r ∈ results, 0 < r) (all : results.sum = packet.size + hdrSize) :
    n.KeepsAsking results ↔ results.head? = some (packet.size + hdrSize) := by
  rcases parts_cases positive all with rfl | ⟨r, more, rest, rfl, first, second, fits⟩
  · exact iff_of_true (keepsAsking_whole wbuf) rfl
  · have less : r < packet.size + hdrSize := by omega
    exact iff_of_false (not_keepsAsking wbuf first less) (head_parts second fits)

/-- A packet that `SSL_write` takes in parts, each at most what it is given, is
passed as it is, and `EVENT_WRITE` is asked for while a part is left, exactly if
the first part is all of it. -/
theorem resumed_iff (n : Network) (packet : Packet) (results : List Nat)
    (wbuf : n.wbuf = ⟨packet, 0, packet.size + hdrSize⟩) (positive : ∀ r ∈ results, 0 < r)
    (all : results.sum = packet.size + hdrSize) :
    n.Covers packet results ∧ n.KeepsAsking results ↔
      results.head? = some (packet.size + hdrSize) := by
  rw [covers_iff wbuf positive all, keepsAsking_iff wbuf positive all, and_self]

end Network

/-- The network that has its request to join in `wbuf`. -/
def joining : Network :=
  { (Network.init (.new [] [] false)).produce
      ((Session.new [] [] false).toPacket (Mem.zero packetMaxSize)) with
    msgQueue := []
    eventWrite := true }

theorem joining_wbuf : joining.wbuf =
    ⟨(Session.new [] [] false).toPacket (Mem.zero packetMaxSize), 0,
      Packet.size ((Session.new [] [] false).toPacket (Mem.zero packetMaxSize)) + hdrSize⟩ := by
  have size := toPacket_size (.new [] [] false) (Mem.zero packetMaxSize)
  simp only [joining, Network.produce, size]
  rfl

/-- The request to join is taken whole. -/
theorem resumed_iff_whole :
    joining.Covers ((Session.new [] [] false).toPacket (Mem.zero packetMaxSize)) [48] ∧
      joining.KeepsAsking [48] := by
  have size := toPacket_size (.new [] [] false) (Mem.zero packetMaxSize)
  refine (joining.resumed_iff _ [48] joining_wbuf (by simp) ?_).mpr ?_
  · rw [size]
    rfl
  · rw [size]
    rfl

/-- The network gets there, and one byte of the request to join is taken. -/
theorem resumed_fails : Runs.run Network.step (.init (.new [] [] false)) [.checkWrite .none] =
    .ok joining ∧
      ¬ (joining.Covers ((Session.new [] [] false).toPacket (Mem.zero packetMaxSize)) [1, 47] ∧
        joining.KeepsAsking [1, 47]) := by
  have size := toPacket_size (.new [] [] false) (Mem.zero packetMaxSize)
  refine ⟨rfl, fun held => ?_⟩
  exact Network.not_covers joining_wbuf (by decide) (by decide) (by rw [size]; decide) held.1

end Quickshare
