import Quickshare.Lib.Relay
import Quickshare.Client.FieldReads
import Quickshare.System.World

/-! One transfer as its parties and channels show it. -/

namespace Quickshare

open Bytes Relay

/-! Packets -/

/-- The size of what is read of a packet about a transfer. -/
def PacketType.least : PacketType → Nat
  | .transferRequest | .transferValid => requestSize
  | .transferReply => transferReplySize
  | .transferData => transferDataSize
  | .transferCancel | .transferComplete => transferStateSize
  | _ => 0

namespace Packet

/-- The bytes a data packet announces. -/
def payload (p : Packet) : List UInt8 := p.dataBytes p.bSize

/-- The recipients a request names. -/
def named (p : Packet) : List ClientId := requestIds p (List.range transferClientsMax)

/-- A packet about a transfer holds all of the fields that are read from it. -/
structure whole (p : Packet) : Prop where
  least : ∀ type, p.type? = some type → type.least ≤ p.size
  most : p.type? = some .transferData → p.bSize ≤ dataBytesSize

end Packet

/-- What a packet to the server says of the transfer `t`. -/
def Parcel.upView (t : TransferId) (m : Parcel) : Option (Up UInt8) :=
  if m.packet.tId = t then
    match m.packet.type? with
    | some .transferData => some (.data m.packet.payload)
    | some .transferComplete => some .complete
    | some .transferReply => some (.reply (m.packet.replyAccept ≠ 0))
    | _ => none
  else none

/-- What a packet of the server says of the transfer `t`. -/
def Parcel.downView (t : TransferId) (m : Parcel) : Option (Down ClientId UInt8) :=
  if m.packet.tId = t then
    match m.packet.type? with
    | some .transferRequest => some (.request m.source)
    | some .transferValid => some (.valid m.source (· ∈ m.packet.named))
    | some .transferReply | some .transferCancel => some (.answer m.packet.hdrFrom)
    | some .transferData => some (.data m.packet.payload)
    | some .transferComplete => some .complete
    | _ => none
  else none

/-- A packet about another transfer is not seen. -/
theorem Parcel.downView_other {t : TransferId} {m : Parcel} (other : m.packet.tId ≠ t) :
    m.downView t = none := by
  simp [downView, other]

/-! Slots -/

namespace ActiveTransfer

/-- The recipients that have not answered. -/
def awaits (a : ActiveTransfer) (id : ClientId) : Bool :=
  a.listed.any fun i => a.hdr.recipients i = id ∧ a.acceptList i = .empty

/-- The server knows the transfer that the slot hosts. -/
def hosting (a : ActiveTransfer) : Bool := a.state = .pending ∨ a.state = .active

def hostView (t : TransferId) (a : ActiveTransfer) : Option (Host ClientId UInt8) :=
  if a.hosting ∧ a.hdr.tId = t then some ⟨a.state = .active, a.fManager.remaining, a.awaits⟩ else none

/-- The slot has a transfer that is offered to it or on its way. -/
def receiving (a : ActiveTransfer) : Bool :=
  a.state = .getResponse ∨ a.state = .accept ∨ a.state = .deny ∨ a.state = .active

def recvView (t : TransferId) (source : List UInt8) (a : ActiveTransfer) : Option (Recv UInt8) :=
  if a.receiving ∧ a.hdr.tId = t then some ⟨a.state ≠ .active, source, a.fManager.stored⟩ else none

end ActiveTransfer

/-- The view of the first slot that has one. -/
def TransferArray.view {View : Type} (ts : TransferArray) (f : ActiveTransfer → Option View) :
    Option View := (List.finRange simTransfersMax).findSome? fun i => f (ts i)

/-! Parties -/

def TransferManager.side (t : TransferId) (source : List UInt8) (m : TransferManager)
    (up down : List Parcel) : Party ClientId UInt8 where
  host := m.hostTransfers.view (ActiveTransfer.hostView t)
  recv := m.recvTransfers.view (ActiveTransfer.recvView t source)
  up := up.filterMap (Parcel.upView t)
  down := down.filterMap (Parcel.downView t)

/-- What a row says of a client's answer. -/
def TransferClientRow.answer (row : TransferClientRow) : Row :=
  if row.accepted = 1 then .accepted else if row.accepted = 0 then .denied else .asked

def Tables.row (tables : Tables) (t : TransferId) (id : ClientId) : Row :=
  match tables.transferClients.find? fun row => row.transferId = t ∧ row.clientId = id with
  | none => .none
  | some row => row.answer

/-- What there is of the transfer `t`. -/
def World.exchange (w : World) (t : TransferId) : Exchange Nat ClientId UInt8 where
  live n := (w.slot n).isSome
  name := w.ids
  row n := if (w.slot n).isSome then w.server.db.tables.row t (w.ids n) else .none
  side n := (w.managers n).side t (w.offered n t) (w.up n) (w.down n)

section Locality

variable {p q : Packet} {t : TransferId} {source : List UInt8}

/-! The bytes sent decide what is read -/

theorem size_of_wire (same : p.wire = q.wire) : p.size = q.size := by
  have lengths := congrArg List.length same
  simp only [Packet.wire, Mem.read_length] at lengths
  omega

theorem read_of_wire (same : p.wire = q.wire) {off w : Nat} (inside : off + w ≤ hdrSize + q.size) :
    p.read off w = q.read off w := by
  have size := size_of_wire same
  simp only [Packet.wire] at same
  rw [size] at same
  exact read_same_within (Nat.zero_le off) (by omega) same

theorem load_of_wire (same : p.wire = q.wire) {off w : Nat} (inside : off + w ≤ hdrSize + q.size) :
    p.load off w = q.load off w :=
  congrArg ofLE (read_of_wire same inside)

theorem loadInt64_of_wire (same : p.wire = q.wire) {off : Nat}
    (inside : off + 8 ≤ hdrSize + q.size) : p.loadInt64 off = q.loadInt64 off :=
  congrArg (fun n => (UInt64.ofNat n).toInt64) (load_of_wire same inside)

theorem type_of_wire (same : p.wire = q.wire) : p.type? = q.type? :=
  congrArg PacketType.ofCode? (load_of_wire same (by simp only [hdrSize]; omega))

theorem hdr_of_wire (same : p.wire = q.wire) (large : 64 ≤ q.size) : p.hdr = q.hdr := by
  refine hdr_same ?_
  simp only [FieldRead.same, FieldRead.hdr, FieldRead.whole]
  exact read_of_wire same (by simp only [hdrSize]; omega)

theorem named_of_wire (same : p.wire = q.wire) (large : 64 ≤ q.size) : p.named = q.named := by
  refine congrArg (List.takeWhile fun id => decide (id ≠ 0)) (List.map_congr_left fun i member => ?_)
  have less : i < 6 := List.mem_range.mp member
  exact loadInt64_of_wire same (by simp only [hdrSize]; omega)

theorem payload_of_wire (same : p.wire = q.wire) (large : 1432 ≤ q.size)
    (small : q.bSize ≤ 1416) : p.payload = q.payload := by
  have count : p.bSize = q.bSize := load_of_wire same (by simp only [hdrSize]; omega)
  rw [Packet.payload, Packet.payload, count]
  exact read_of_wire same (by simp only [hdrSize]; omega)

theorem clientTransferId_of_wire (same : p.wire = q.wire) (large : 144 ≤ q.size) :
    p.clientTransferId = q.clientTransferId :=
  loadInt64_of_wire same (by simp only [hdrSize]; omega)

theorem PacketType.least_large {type : PacketType} (some : type.least ≠ 0) : 64 ≤ type.least := by
  cases type with
  | transferRequest => decide
  | transferValid => decide
  | transferReply => decide
  | transferData => decide
  | transferCancel => decide
  | transferComplete => decide
  | _ => exact absurd rfl some

theorem Packet.whole.of_wire (whole : q.whole) (same : p.wire = q.wire) : p.whole where
  least type kind := by
    rw [size_of_wire same]
    exact whole.least type (type_of_wire same ▸ kind)
  most kind := by
    have here := (type_of_wire same).symm.trans kind
    have large : 1432 ≤ q.size := whole.least _ here
    have count : p.bSize = q.bSize := load_of_wire same (by simp only [hdrSize]; omega)
    rw [count]
    exact whole.most here

theorem Parcel.upView_of_wire (same : p.wire = q.wire) (whole : q.whole) :
    Parcel.upView t ⟨p, source⟩ = Parcel.upView t ⟨q, source⟩ := by
  have type := type_of_wire same
  simp only [upView, type]
  cases kind : q.type? with
  | none => simp
  | some k =>
    have least := whole.least k kind
    by_cases zero : k.least = 0
    · cases k <;> first | exact absurd zero (by decide) | simp
    · have id : p.tId = q.tId := (congrArg TransferHdr.tId
        (hdr_of_wire same (Nat.le_trans (PacketType.least_large zero) least)) :)
      rw [id]
      cases k with
      | transferData => rw [payload_of_wire same least (whole.most kind)]
      | transferReply =>
        have accept : p.replyAccept = q.replyAccept :=
          load_of_wire same (by simp only [PacketType.least, transferReplySize, hdrSize] at *; omega)
        rw [accept]
      | _ => rfl

theorem Parcel.downView_of_wire (same : p.wire = q.wire) (whole : q.whole) :
    Parcel.downView t ⟨p, source⟩ = Parcel.downView t ⟨q, source⟩ := by
  have type := type_of_wire same
  simp only [downView, type]
  cases kind : q.type? with
  | none => simp
  | some k =>
    have least := whole.least k kind
    by_cases zero : k.least = 0
    · cases k <;> first | exact absurd zero (by decide) | simp
    · have large := Nat.le_trans (PacketType.least_large zero) least
      have hdr := hdr_of_wire same large
      have id : p.tId = q.tId := (congrArg TransferHdr.tId hdr :)
      have sender : p.hdrFrom = q.hdrFrom := (congrArg TransferHdr.sender hdr :)
      rw [id, sender]
      cases k with
      | transferData => rw [payload_of_wire same least (whole.most kind)]
      | transferValid => rw [named_of_wire same large]
      | _ => rfl

end Locality

section Views

variable {View : Type} {ts us : TransferArray} {f g : ActiveTransfer → Option View}
  {i j : Fin simTransfersMax} {v : View}

/-- At most one slot has a view. -/
def TransferArray.Single (ts : TransferArray) (f : ActiveTransfer → Option View) : Prop :=
  ∀ i j, (f (ts i)).isSome → (f (ts j)).isSome → i = j

namespace TransferArray

theorem view_none (empty : ∀ i, f (ts i) = none) : ts.view f = none :=
  List.findSome?_eq_none_iff.mpr fun i _ => empty i

theorem none_of_view (empty : ts.view f = none) (i : Fin simTransfersMax) : f (ts i) = none :=
  List.findSome?_eq_none_iff.mp empty i (List.mem_finRange i)

theorem exists_of_view (view : ts.view f = some v) : ∃ i, f (ts i) = some v := by
  obtain ⟨i, -, here⟩ := List.exists_of_findSome?_eq_some view
  exact ⟨i, here⟩

theorem Single.view (single : ts.Single f) (here : f (ts i) = some v) : ts.view f = some v := by
  cases found : ts.view f with
  | none =>
    rw [none_of_view found i] at here
    cases here
  | some u =>
    obtain ⟨j, there⟩ := exists_of_view found
    rw [single j i (by simp [there]) (by simp [here]), here] at there
    exact there.symm

/-- Slots that show the same leave the view as it is. -/
theorem view_congr (same : ∀ i, g (us i) = f (ts i)) : us.view g = ts.view f := by
  unfold TransferArray.view
  congr 1
  funext i
  exact same i

/-- Where slots show the same as before or nothing, so does the view. -/
theorem Single.fewer (single : ts.Single f) (fewer : ∀ i, g (us i) = f (ts i) ∨ g (us i) = none) :
    us.view g = ts.view f ∨ us.view g = none := by
  cases found : us.view g with
  | none => exact .inr rfl
  | some v =>
    obtain ⟨i, here⟩ := exists_of_view found
    rcases fewer i with same | none
    · exact .inl (single.view (same ▸ here)).symm
    · rw [none] at here
      cases here

/-- A slot that is seen is the only one: the view follows it. -/
theorem Single.modify (single : ts.Single f) (seen : (f (ts i)).isSome)
    (change : ActiveTransfer → ActiveTransfer) : (ts.modify i change).view f = f (change (ts i)) := by
  have others {j : Fin simTransfersMax} (other : j ≠ i) : f (ts j) = none := by
    by_contra some
    exact other (single j i (Option.isSome_iff_ne_none.mpr some) seen)
  have here : f (ts.modify i change i) = f (change (ts i)) := by rw [modify_self]
  cases now : f (change (ts i)) with
  | none =>
    refine view_none fun j => ?_
    by_cases same : j = i
    · rw [same, here, now]
    · rw [modify_of_ne ts change same, others same]
  | some v =>
    refine Single.view (fun j k one two => ?_) (here.trans now)
    by_cases left : j = i
    · by_cases right : k = i
      · rw [left, right]
      · rw [modify_of_ne ts change right, others right] at two
        cases two
    · rw [modify_of_ne ts change left, others left] at one
      cases one

/-- Where no slot was seen the view is that of the changed one. -/
theorem view_modify (empty : ts.view f = none) (change : ActiveTransfer → ActiveTransfer) :
    (ts.modify i change).view f = f (change (ts i)) := by
  have here : f (ts.modify i change i) = f (change (ts i)) := by rw [modify_self]
  have others {j : Fin simTransfersMax} (other : j ≠ i) : f (ts.modify i change j) = none := by
    rw [modify_of_ne ts change other, none_of_view empty j]
  cases now : f (change (ts i)) with
  | none =>
    refine view_none fun j => ?_
    by_cases same : j = i
    · rw [same, here, now]
    · exact others same
  | some v =>
    refine Single.view (fun j k one two => ?_) (here.trans now)
    by_cases left : j = i
    · by_cases right : k = i
      · rw [left, right]
      · rw [others right] at two
        cases two
    · rw [others left] at one
      cases one

/-- Where the slot that changes shows the same as before or nothing, so does the view. -/
theorem Single.lapses (single : ts.Single f) {change : ActiveTransfer → ActiveTransfer}
    (fewer : f (change (ts i)) = f (ts i) ∨ f (change (ts i)) = none) :
    (ts.modify i change).view f = ts.view f ∨ (ts.modify i change).view f = none := by
  refine single.fewer fun j => ?_
  by_cases here : j = i
  · rw [here, modify_self]
    exact fewer
  · exact .inl (by rw [modify_of_ne ts change here])

/-- A slot that changes is still the only one seen, if it was or none was. -/
theorem Single.modified (single : ts.Single f) (change : ActiveTransfer → ActiveTransfer)
    (seen : (f (change (ts i))).isSome → (f (ts i)).isSome ∨ ts.view f = none) :
    (ts.modify i change).Single f := by
  have others {j : Fin simTransfersMax} (one : (f (change (ts i))).isSome) (two : (f (ts j)).isSome) :
      j = i := by
    rcases seen one with before | empty
    · exact single j i two before
    · rw [none_of_view empty j] at two
      cases two
  intro j k one two
  by_cases left : j = i
  · by_cases right : k = i
    · rw [left, right]
    · rw [left, modify_self] at one
      rw [modify_of_ne ts change right] at two
      exact left.trans (others one two).symm
  · rw [modify_of_ne ts change left] at one
    by_cases right : k = i
    · rw [right, modify_self] at two
      exact (others two one).trans right.symm
    · rw [modify_of_ne ts change right] at two
      exact single j k one two

/-- A change that does not show. -/
theorem view_same (change : ActiveTransfer → ActiveTransfer) (same : f (change (ts i)) = f (ts i)) :
    (ts.modify i change).view f = ts.view f := by
  refine view_congr fun j => ?_
  by_cases here : j = i
  · rw [here, modify_self, same]
  · rw [modify_of_ne ts change here]

end TransferArray

end Views

end Quickshare
