import Quickshare.Server.StepRules

/-! The text of `debug_transfer`. Its prints are bounded but for the second, and
`capacity` is an unsigned number that a cut line takes below zero. -/

namespace Quickshare

open Bytes

/-- One `snprintf` or `sprintf` of `n` characters into a text. -/
structure DebugPrint where
  text : DebugText
  bounded : Bool
  n : Nat
  deriving DecidableEq, Repr

namespace DebugPrint

/-- The bytes stored, the terminator included. -/
def stored (print : DebugPrint) : Nat :=
  if print.bounded then min (print.n + 1) print.text.capacity else print.n + 1

/-- The bytes end within the buffer, and `capacity` does not wrap. -/
def Contained (print : DebugPrint) : Prop :=
  print.text.ptr + print.stored ≤ 124 ∧ print.n ≤ print.text.capacity

instance (print : DebugPrint) : Decidable print.Contained :=
  inferInstanceAs (Decidable (_ ∧ _))

end DebugPrint

/-- The characters of the lines for the recipients of a request from `indices` on. -/
def lineLengths (p : Packet) (indices : List Nat) : List Nat :=
  (requestIds p indices).map fun id => 4 + decimalLength id.toInt

/-- The prints of lines of these lengths: the loop ends behind one at least as long
as what `capacity` then is. -/
def debugUserPrints : DebugText → List Nat → List DebugPrint
  | _, [] => []
  | t, n :: rest =>
    ⟨t, true, n⟩ :: if n ≥ (t.print true n).capacity then []
      else debugUserPrints (t.print true n) rest

/-- What the second print writes apart from its fixed text. -/
def debugFields (p : Packet) : Nat :=
  (cString p.fileName).length + decimalLength p.fileSize +
    decimalLength p.clientTransferId.toUInt64.toNat

/-- The prints of `debug_transfer`, in order. -/
def debugPrints (p : Packet) : List DebugPrint :=
  let start : DebugText := ⟨0, 124, true⟩
  let titled := start.print true 50
  let listed := titled.print false (44 + debugFields p)
  ⟨start, true, 50⟩ :: ⟨titled, false, 44 + debugFields p⟩ ::
    debugUserPrints listed (lineLengths p (List.range transferClientsMax))

/-- The response to a request of `c` that could not be recorded. -/
def Server.rejection (s : Server) (c : Slot) : Run Server :=
  sendTransferResponse { s with db := (s.recorded c).2.2 } c (s.client c).decryptBuf.packet
    .transferInvalid 0

/-- `packet_transfer` gets to `debug_transfer`: it has begun to record the request
of `c`, rejects it, and the queue of `c` takes the response. -/
def Server.debugs (s : Server) (c : Slot) : Bool :=
  s.begun.1 && !(s.recorded c).1 && (s.rejection c).isOk

/-- What `packet_transfer` prints for the request of `c`. -/
def Server.debugged (s : Server) (c : Slot) : List DebugPrint :=
  if s.debugs c then debugPrints (s.client c).decryptBuf.packet else []

/-- Each line is at most as long as what is left of the buffer, as far as lines are
printed: a line at least as long as what is left after it is the last. -/
def linesFit : Nat → List Nat → Prop
  | _, [] => True
  | room, n :: rest => n ≤ room ∧ (n < room - n → linesFit (room - n) rest)

/-- The file name and both numbers have 29 characters at most, and the lines fit
into what they leave. -/
def debugFits (p : Packet) : Prop :=
  debugFields p ≤ 29 ∧ linesFit (30 - debugFields p) (lineLengths p (List.range transferClientsMax))

/-! The prints are those of the model -/

section Prints

variable {p : Packet} {t : DebugText} {room : Nat}

theorem debugUsers_cons {i n : Nat} (goes : p.hdrTo i ≠ 0)
    (length : 4 + decimalLength (p.hdrTo i).toInt = n) (rest : List Nat) :
    debugUsers p t (i :: rest) = if n ≥ (t.print true n).capacity then t.print true n
      else debugUsers p (t.print true n) rest := by
  subst length
  rw [debugUsers, if_neg goes]

theorem lineLengths_cons {i n : Nat} (goes : p.hdrTo i ≠ 0)
    (length : 4 + decimalLength (p.hdrTo i).toInt = n) (rest : List Nat) :
    lineLengths p (i :: rest) = n :: lineLengths p rest := by
  simp [lineLengths, requestIds, goes, length]

theorem debugUserPrints_fold (p : Packet) (t : DebugText) (indices : List Nat) :
    (debugUserPrints t (lineLengths p indices)).foldl
      (fun t print => t.print print.bounded print.n) t = debugUsers p t indices := by
  induction indices generalizing t with
  | nil => rfl
  | cons i rest ih =>
    by_cases last : p.hdrTo i = 0
    · have none : lineLengths p (i :: rest) = [] := by simp [lineLengths, requestIds, last]
      rw [none, debugUsers, if_pos last, debugUserPrints, List.foldl_nil]
    · obtain ⟨n, length⟩ : ∃ n, 4 + decimalLength (p.hdrTo i).toInt = n := ⟨_, rfl⟩
      rw [lineLengths_cons last length, debugUsers_cons last length, debugUserPrints,
        List.foldl_cons]
      by_cases long : n ≥ (t.print true n).capacity
      · rw [if_pos long, if_pos long, List.foldl_nil]
      · rw [if_neg long, if_neg long]
        exact ih _

/-- The prints lead to the text that `debug_transfer` leaves. -/
theorem debugPrints_fold (p : Packet) :
    (debugPrints p).foldl (fun t print => t.print print.bounded print.n) ⟨0, 124, true⟩ =
      debugTransfer p := by
  simp only [debugPrints, List.foldl_cons]
  have fields : 44 + debugFields p = 44 + (cString p.fileName).length + decimalLength p.fileSize +
      decimalLength p.clientTransferId.toUInt64.toNat := by
    rw [debugFields]
    omega
  rw [fields]
  exact debugUserPrints_fold p _ _

/-- A text of which `room` bytes are left. -/
structure DebugText.Left (t : DebugText) (room : Nat) : Prop where
  ptr : t.ptr + room = 124
  capacity : t.capacity = room

theorem DebugText.Left.print (left : t.Left room) (bounded : Bool) {n : Nat} (fits : n ≤ room) :
    (t.print bounded n).Left (room - n) where
  ptr := by
    have ptr := left.ptr
    simp only [DebugText.print]
    omega
  capacity := by
    have ptr := left.ptr
    have capacity := left.capacity
    simp only [DebugText.print, capacity]
    omega

theorem DebugText.Left.contained_bounded (left : t.Left room) (n : Nat) :
    DebugPrint.Contained ⟨t, true, n⟩ ↔ n ≤ room := by
  have ptr := left.ptr
  simp only [DebugPrint.Contained, DebugPrint.stored, if_true, left.capacity]
  omega

theorem DebugText.Left.contained_unbounded (left : t.Left room) (n : Nat) :
    DebugPrint.Contained ⟨t, false, n⟩ ↔ n < room := by
  have ptr := left.ptr
  simp only [DebugPrint.Contained, DebugPrint.stored, Bool.false_eq_true, if_false, left.capacity]
  omega

/-- The recipient lines are contained exactly if they fit. -/
theorem debugUserPrints_contained (left : t.Left room) (lengths : List Nat) :
    (∀ print ∈ debugUserPrints t lengths, print.Contained) ↔ linesFit room lengths := by
  induction lengths generalizing t room with
  | nil => simp [debugUserPrints, linesFit]
  | cons n rest ih =>
    simp only [debugUserPrints, linesFit, List.forall_mem_cons]
    rw [left.contained_bounded]
    refine and_congr_right fun fits => ?_
    have later := left.print true fits
    have capacity := later.capacity
    by_cases long : n ≥ (t.print true n).capacity
    · rw [if_pos long]
      exact iff_of_true (fun _ member => absurd member List.not_mem_nil)
        fun short => absurd short (by omega)
    · have short : n < room - n := by omega
      rw [if_neg long, forall_prop_of_true short]
      exact ih later

theorem debugPrints_contained (p : Packet) :
    (∀ print ∈ debugPrints p, print.Contained) ↔ debugFits p := by
  have start : DebugText.Left ⟨0, 124, true⟩ 124 := ⟨rfl, rfl⟩
  have title := start.print true (n := 50) (by decide)
  simp only [debugPrints, List.forall_mem_cons, debugFits]
  rw [start.contained_bounded, title.contained_unbounded, and_iff_right (by decide)]
  by_cases short : debugFields p ≤ 29
  · have fields := title.print false (n := 44 + debugFields p) (by omega)
    have room : 124 - 50 - (44 + debugFields p) = 30 - debugFields p := by omega
    rw [room] at fields
    refine and_congr (by omega) ?_
    exact debugUserPrints_contained fields _
  · exact iff_of_false (fun held => short (by omega)) fun held => short held.1

theorem debugUserPrints_inside (t : DebugText) (lengths : List Nat) :
    ((debugUserPrints t lengths).foldl (fun t print => t.print print.bounded print.n) t).inside =
      (t.inside && (debugUserPrints t lengths).all fun print => print.text.ptr + print.stored ≤ 124) := by
  induction lengths generalizing t with
  | nil => simp [debugUserPrints]
  | cons n rest ih =>
    rw [debugUserPrints, List.foldl_cons, List.all_cons, ← Bool.and_assoc]
    have first : (t.print true n).inside =
        (t.inside && decide (t.ptr + DebugPrint.stored ⟨t, true, n⟩ ≤ 124)) := rfl
    rw [← first]
    split
    · simp
    · exact ih _

/-- The model goes on behind `debug_transfer` exactly if every print stays inside. -/
theorem debugTransfer_inside (p : Packet) : (debugTransfer p).inside = true ↔
    ∀ print ∈ debugPrints p, print.text.ptr + print.stored ≤ 124 := by
  rw [← debugPrints_fold]
  simp only [debugPrints, List.foldl_cons, debugUserPrints_inside, List.forall_mem_cons,
    Bool.and_eq_true, List.all_eq_true, decide_eq_true_eq]
  simp [DebugText.print, DebugPrint.stored]

end Prints

/-- A rejected request ends the run exactly if one of its prints leaves the buffer. -/
theorem packetTransfer_rejected {s : Server} {c : Slot} (begun : s.begun.1 = true)
    (refused : (s.recorded c).1 = false) :
    packetTransfer s c = (s.rejection c).bind fun t =>
      if (debugPrints (s.client c).decryptBuf.packet).all
          fun print => print.text.ptr + print.stored ≤ 124 then
        .ok { t with db := (dbTransaction t.db .rollback).2 }
      else .error (.outOfBounds, { t with db := (dbTransaction t.db .rollback).2 }) := by
  have inside : (debugTransfer (s.client c).decryptBuf.packet).inside =
      (debugPrints (s.client c).decryptBuf.packet).all
        fun print => print.text.ptr + print.stored ≤ 124 := by
    rw [Bool.eq_iff_iff, debugTransfer_inside, List.all_eq_true]
    simp only [decide_eq_true_eq]
  simp only [packetTransfer_eq, begun, refused, if_true, Bool.false_eq_true, if_false, inside,
    Server.rejection]

/-- What is printed for a rejected request stays in the buffer, with `capacity`
right, exactly if the request names a short file, small numbers and recipients
whose lines fit. -/
theorem debugged_contained_iff (s : Server) (c : Slot) :
    (∀ print ∈ s.debugged c, print.Contained) ↔
      (s.debugs c = true → debugFits (s.client c).decryptBuf.packet) := by
  unfold Server.debugged
  by_cases rejected : s.debugs c = true
  · rw [if_pos rejected, debugPrints_contained]
    exact ⟨fun fits _ => fits, fun fits => fits rejected⟩
  · rw [if_neg rejected]
    exact iff_of_true (fun _ member => absurd member List.not_mem_nil) fun held =>
      absurd held rejected

/-- A client that is in no session has sent the header of a request. -/
def requestAnnounced : List Event :=
  connects 4 100 ++ [.recv 4 (toLE 4 PacketType.transferRequest.code ++ toLE 4 requestSize)]

/-- A request to nobody for a file whose name fills its field. -/
def longNameBody : List UInt8 :=
  List.replicate 72 0 ++ List.replicate fileNameLen 97 ++ List.replicate 8 0

/-- The name of the file runs past the end of the buffer. -/
theorem debugged_contained_fails : ∃ s c t,
    Runs.run step (Server.init .fresh) requestAnnounced = .ok s ∧
      s.delivers (.recv 4 longNameBody) = some (c, t) ∧
      (t.client c).decryptBuf.packet.type? = some .transferRequest ∧
      ¬ ∀ print ∈ t.debugged c, print.Contained := by
  have checked : Run.passes (fun s => (s.delivers (.recv 4 longNameBody)).any fun (c, t) =>
      (t.client c).decryptBuf.packet.type? = some .transferRequest ∧
        t.debugs c = true ∧ (cString (t.client c).decryptBuf.packet.fileName).length = 64)
      (Runs.run step (Server.init .fresh) requestAnnounced) = true := by
    decide +kernel
  obtain ⟨s, reached, rejects⟩ := Run.passes_ok checked
  obtain ⟨⟨c, t⟩, delivers, found⟩ := (Option.any_eq_true _ _).mp rejects
  obtain ⟨request, rejected, long⟩ := of_decide_eq_true found
  refine ⟨s, c, t, reached, delivers, request, fun contained => ?_⟩
  rw [Server.debugged, if_pos rejected, debugPrints_contained] at contained
  have short := contained.1
  rw [debugFields, long] at short
  omega

end Quickshare
