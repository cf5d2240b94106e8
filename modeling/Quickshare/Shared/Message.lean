import Quickshare.Lib.Bytes

/-! The wire format of `shared/msg.h` with the constants of `shared/config.h`.
A packet is its 1440 raw bytes; each field is read at its offset, so a short
packet really shows whatever bytes the buffer held before. -/

namespace Quickshare

open Bytes

abbrev packetMaxSize : Nat := 1440
abbrev pcNameMaxLen : Nat := 16
abbrev sessionIdMaxLen : Nat := 16
abbrev clientListLen : Nat := 32
abbrev fileNameLen : Nat := 64
abbrev transferClientsMax : Nat := 6
abbrev transferQueueMax : Nat := 6
abbrev fileBufferSize : Nat := 1024 * 3
abbrev simTransfersMax : Nat := 6

/-- `time_t`. -/
abbrev ClientId := Int64
abbrev TransferId := Int64
abbrev SessionId := Int64

inductive PacketType where
  | serverOk
  | serverDeny
  | clientIntro
  | serverNewUsers
  | serverDelUsers
  | transferValid
  | transferInvalid
  | transferRequest
  | transferReply
  | transferData
  | transferCancel
  | transferComplete
  deriving DecidableEq, Repr

/-- The enumerator values of `msg.h`. -/
def PacketType.code : PacketType → Nat
  | .serverOk => 0
  | .serverDeny => 1
  | .clientIntro => 2
  | .serverNewUsers => 3
  | .serverDelUsers => 4
  | .transferValid => 5
  | .transferInvalid => 6
  | .transferRequest => 7
  | .transferReply => 8
  | .transferData => 9
  | .transferCancel => 10
  | .transferComplete => 11

def PacketType.ofCode? : Nat → Option PacketType
  | 0 => some .serverOk
  | 1 => some .serverDeny
  | 2 => some .clientIntro
  | 3 => some .serverNewUsers
  | 4 => some .serverDelUsers
  | 5 => some .transferValid
  | 6 => some .transferInvalid
  | 7 => some .transferRequest
  | 8 => some .transferReply
  | 9 => some .transferData
  | 10 => some .transferCancel
  | 11 => some .transferComplete
  | _ => none

@[simp] theorem PacketType.ofCode?_code (type : PacketType) : ofCode? type.code = some type := by
  cases type <;> rfl

theorem PacketType.code_lt (type : PacketType) : type.code < 256 ^ 4 := by
  cases type <;> decide

abbrev Packet := Mem packetMaxSize

/-- `sizeof(Packet_Hdr)`. -/
abbrev hdrSize : Nat := 8

abbrev introSize : Nat := 40
abbrev newUsersSize : Nat := 776
abbrev delUserSize : Nat := 24
abbrev requestSize : Nat := 144
abbrev transferDataSize : Nat := 1432
abbrev transferReplySize : Nat := 65
abbrev transferStateSize : Nat := 64
/-- `sizeof(Transfer_Data::bytes)`. -/
abbrev dataBytesSize : Nat := 1416

namespace Packet

def type? (p : Packet) : Option PacketType := PacketType.ofCode? (p.load 0 4)
def size (p : Packet) : Nat := p.load 4 4

/-- The `PACKET_HDR` macro. -/
def packetHdr (type : PacketType) (size : Nat) (p : Packet) : Packet :=
  (p.store 0 4 type.code).store 4 4 size

/-! `d.intro` -/
def introName (p : Packet) : List UInt8 := p.read 8 pcNameMaxLen
def introId (p : Packet) : List UInt8 := p.read 24 sessionIdMaxLen
def introSession (p : Packet) : Nat := p.load 40 8

/-! `d.request.hdr`, `d.transfer_reply.hdr`, `d.transfer_state.hdr` and
`d.transfer_data.t_id` all start the union. -/
def tId (p : Packet) : TransferId := p.loadInt64 8
def hdrFrom (p : Packet) : ClientId := p.loadInt64 16
def hdrTo (p : Packet) (i : Nat) : ClientId := p.loadInt64 (24 + 8 * i)

/-! `d.request` -/
def clientTransferId (p : Packet) : TransferId := p.loadInt64 72
def fileName (p : Packet) : List UInt8 := p.read 80 fileNameLen
def fileSize (p : Packet) : Nat := p.load 144 8

/-! `d.transfer_reply` -/
def replyAccept (p : Packet) : Nat := p.load 72 1

/-! `d.transfer_data` -/
def bSize (p : Packet) : Nat := p.load 16 8
def dataBytes (p : Packet) (k : Nat) : List UInt8 := p.read 24 k

/-! `d.del_user` -/
def delUserId (p : Packet) : ClientId := p.loadInt64 24

/-! `d.new_users` -/
def newUsersName (p : Packet) (i : Nat) : List UInt8 := p.read (8 + pcNameMaxLen * i) pcNameMaxLen
def newUsersId (p : Packet) (i : Nat) : ClientId := p.loadInt64 (520 + 8 * i)
def newUsersLen (p : Packet) : Nat := p.load 776 1

/-- The bytes `encrypt` hands to `SSL_write`. -/
def wire (p : Packet) : List UInt8 := p.read 0 (hdrSize + p.size)

end Packet

/-! Headers -/

/-- A copy behind the header leaves the size field alone. -/
theorem Packet.size_write (p : Packet) {off : Nat} (bytes : List UInt8) (behind : hdrSize ≤ off) :
    Packet.size (p.write off bytes) = p.size :=
  p.load_write_apart bytes (.inl behind)

theorem Packet.size_store (p : Packet) {off : Nat} (w v : Nat) (behind : hdrSize ≤ off) :
    Packet.size (p.store off w v) = p.size :=
  p.size_write _ behind

theorem Packet.size_storeInt64 (p : Packet) {off : Nat} (v : Int64) (behind : hdrSize ≤ off) :
    Packet.size (p.storeInt64 off v) = p.size :=
  p.size_store _ _ behind

theorem Packet.size_packetHdr (type : PacketType) {size : Nat} (p : Packet) (small : size < 256 ^ 4) :
    Packet.size (Packet.packetHdr type size p) = size := by
  rw [Packet.size, Packet.packetHdr, Mem.load_store _ (by decide), Nat.mod_eq_of_lt small]

/-- A header does not depend on what it is written over. -/
theorem Packet.byte_header (type : PacketType) (size : Nat) (p q : Packet) {k : Nat}
    (inside : k < hdrSize) :
    Mem.byte (Packet.packetHdr type size q) k = Mem.byte (Packet.packetHdr type size p) k := by
  have less : k < 8 := inside
  simp only [Packet.packetHdr, Mem.store]
  by_cases late : 4 ≤ k
  · exact Mem.byte_write_same _ _ _ late (by simpa using less)
  · have early : k < 4 := by omega
    rw [Mem.byte_write_outside _ _ (.inl early), Mem.byte_write_outside _ _ (.inl early)]
    exact Mem.byte_write_same _ _ _ (Nat.zero_le k) (by simpa using early)

theorem Packet.type?_packetHdr (type : PacketType) (size : Nat) (p : Packet) :
    (Packet.packetHdr type size p).type? = some type := by
  rw [Packet.type?, Packet.packetHdr, Mem.load_store_apart _ (.inl (by decide)),
    Mem.load_store _ (by decide), Nat.mod_eq_of_lt type.code_lt, PacketType.ofCode?_code]

theorem Packet.type?_write (p : Packet) {off : Nat} (bytes : List UInt8) (behind : 4 ≤ off) :
    Packet.type? (p.write off bytes) = p.type? := by
  rw [Packet.type?, p.load_write_apart bytes (.inl behind), Packet.type?]

theorem Packet.type?_store (p : Packet) {off : Nat} (w v : Nat) (behind : 4 ≤ off) :
    Packet.type? (p.store off w v) = p.type? :=
  p.type?_write _ behind

theorem Packet.type?_storeInt64 (p : Packet) {off : Nat} (v : Int64) (behind : 4 ≤ off) :
    Packet.type? (p.storeInt64 off v) = p.type? :=
  p.type?_store _ _ behind

/-- The bytes before the first NUL. -/
def cString (bytes : List UInt8) : List UInt8 := bytes.takeWhile (· ≠ 0)

end Quickshare
