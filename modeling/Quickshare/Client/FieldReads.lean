import Quickshare.Client.Moves
import Quickshare.Client.Reassembly

/-! What the handlers of the client read of a packet: for each of them the list
of its reads, with the field each belongs to. A handler cannot tell apart two
packets that agree where it reads, so the lists leave nothing out. -/

namespace Quickshare

open Runs Bytes

/-- `length` bytes read from `offset` on, meant for the field of `size` bytes at `start`. -/
structure FieldRead where
  start : Nat
  size : Nat
  offset : Nat
  length : Nat

namespace FieldRead

/-- A read of a whole field. -/
def whole (start size : Nat) : FieldRead := ⟨start, size, start, size⟩

/-- The read stays within its field, and the field within the packet. -/
def inside (r : FieldRead) : Prop :=
  r.start ≤ r.offset ∧ r.offset + r.length ≤ r.start + r.size ∧ r.start + r.size ≤ packetMaxSize

def type : FieldRead := whole 0 4
/-- `hdr` of a request, reply or state packet. -/
def hdr : FieldRead := whole 8 64
def tId : FieldRead := whole 8 8
def hdrFrom : FieldRead := whole 16 8
def clientTransferId : FieldRead := whole 72 8
def fileSize : FieldRead := whole 144 8
def replyAccept : FieldRead := whole 72 1
def bSize : FieldRead := whole 16 8
def delUserId : FieldRead := whole 24 8
def newUsersLen : FieldRead := whole 776 1

/-- `names[i]` of `names[CLIENT_LIST_LEN]`. -/
def newUsersName (i : Nat) : FieldRead :=
  ⟨8, pcNameMaxLen * clientListLen, 8 + pcNameMaxLen * i, pcNameMaxLen⟩

/-- `ids[i]` of `ids[CLIENT_LIST_LEN]`. -/
def newUsersId (i : Nat) : FieldRead := ⟨520, 8 * clientListLen, 520 + 8 * i, 8⟩

/-- `file_name` as a C string: the bytes up to the first NUL, wherever it is. -/
def fileName (p : Packet) : FieldRead :=
  ⟨80, fileNameLen, 80, (cString (p.read 80 (packetMaxSize - 80))).length + 1⟩

/-- `fwrite` of `bytes`. -/
def dataBytes (p : Packet) : FieldRead := ⟨24, dataBytesSize, 24, p.bSize⟩

/-- Both packets have the same bytes there. -/
def same (r : FieldRead) (p q : Packet) : Prop := p.read r.offset r.length = q.read r.offset r.length

end FieldRead

/-- `add_users`. -/
def addUsersReads (p : Packet) : List FieldRead :=
  .newUsersLen :: (List.range p.newUsersLen).flatMap fun i =>
    [.newUsersName i, .newUsersId i]

/-- `remove_user`. -/
def removeUserReads (users : List User) : List FieldRead :=
  if users = [] then [] else [.delUserId]

/-- `write_file`; the name is appended to the path only where there is a user. -/
def writeFileReads (p : Packet) (target : WriteTarget) : List FieldRead :=
  .fileSize :: if target.user = none then [] else [.fileName p]

/-- `write_work`. -/
def writeWorkReads (f : FileManager) (p : Packet) : List FieldRead :=
  if f.state = .working then [.bSize, .dataBytes p] else []

namespace TransferManager

variable (m : TransferManager)

def createRecvRequestReads (p : Packet) (target : WriteTarget) : List FieldRead :=
  match getTransfer m.recvTransfers with
  | none => []
  | some i =>
    let opened := ((m.recvTransfers i).fManager.writeFile [] p.fileSize target).1
    writeFileReads p target ++ if opened then [.hdr, .fileName p] else []

def hostRequestValidReads (p : Packet) (reply : Bool) : List FieldRead :=
  .clientTransferId ::
    match m.hostTransfers.search fun t =>
      t.state = .getResponse ∧ t.localId = p.clientTransferId with
    | none => []
    | some _ => if reply then [.hdr] else []

def recvDataReads (p : Packet) : List FieldRead :=
  .tId ::
    match m.recvTransfers.search fun t => t.state = .active ∧ p.tId = t.hdr.tId with
    | none => []
    | some i => writeWorkReads (m.recvTransfers i).fManager p

/-- The handlers of `Transfer_Manager`. -/
def handleReads (env : PacketEnv) (p : Packet) : List FieldRead :=
  match p.type? with
  | some .transferRequest => m.createRecvRequestReads p env.target
  | some .transferValid => m.hostRequestValidReads p true
  | some .transferInvalid => m.hostRequestValidReads p false
  | some .transferCancel => [.tId, .hdrFrom]
  | some .transferReply => [.tId, .hdrFrom, .replyAccept]
  | some .transferData => m.recvDataReads p
  | some .transferComplete => [.tId]
  | _ => []

end TransferManager

namespace Network

/-- `analize` and the handlers it dispatches to. -/
def analizeReads (n : Network) (env : PacketEnv) : List FieldRead :=
  .type :: match n.rbuf.packet.type? with
    | some .serverNewUsers => addUsersReads n.rbuf.packet
    | some .serverDelUsers => removeUserReads n.users
    | _ => n.manager.handleReads env n.rbuf.packet

end Network

/-! The lists are complete. -/

section Locality

variable {p q : Packet} {m : TransferManager} {env : PacketEnv}

theorem load_same {off w : Nat} (same : (FieldRead.whole off w).same p q) :
    p.load off w = q.load off w := congrArg ofLE same

theorem loadInt64_same {off : Nat} (same : (FieldRead.whole off 8).same p q) :
    p.loadInt64 off = q.loadInt64 off := by
  rw [Mem.loadInt64, load_same same, Mem.loadInt64]

theorem read_same_of_le {off w k : Nat} (less : k ≤ w) (same : p.read off w = q.read off w) :
    p.read off k = q.read off k := by
  rw [← p.read_take off less, same, q.read_take off less]

/-- A field within a longer one that was read. -/
theorem read_same_within {off w start k : Nat} (late : off ≤ start) (less : start + k ≤ off + w)
    (same : p.read off w = q.read off w) : p.read start k = q.read start k := by
  obtain ⟨skip, rfl⟩ := Nat.exists_eq_add_of_le late
  obtain ⟨rest, rfl⟩ := Nat.exists_eq_add_of_le (by omega : skip + k ≤ w)
  have short : p.read off (skip + k) = q.read off (skip + k) :=
    read_same_of_le (Nat.le_add_right _ _) same
  rw [← p.read_drop off skip k, short, q.read_drop off skip k]

theorem loadInt64_within {off w start : Nat} (late : off ≤ start) (less : start + 8 ≤ off + w)
    (same : (FieldRead.whole off w).same p q) : p.loadInt64 start = q.loadInt64 start :=
  loadInt64_same (read_same_within late less same)

theorem hdr_same (same : FieldRead.hdr.same p q) : p.hdr = q.hdr := by
  have ids : p.tId = q.tId := loadInt64_within (by decide) (by decide) same
  have senders : p.hdrFrom = q.hdrFrom := loadInt64_within (by decide) (by decide) same
  have recipients (i : Fin transferClientsMax) : p.hdrTo i = q.hdrTo i := by
    have less : i.val < 6 := i.isLt
    exact loadInt64_within (by omega) (by omega) same
  simp only [Packet.hdr, ids, senders, recipients]

/-- A C string is decided by its bytes and the NUL. -/
theorem cString_same {first second : List UInt8}
    (same : first.take ((cString first).length + 1) = second.take ((cString first).length + 1)) :
    cString first = cString second ∧ (0 ∈ first ↔ 0 ∈ second) := by
  induction first generalizing second with
  | nil =>
    cases second with
    | nil => exact ⟨rfl, Iff.rfl⟩
    | cons b second => simp [cString] at same
  | cons b first ih =>
    cases second with
    | nil => simp at same
    | cons c second =>
      obtain ⟨rfl, later⟩ : b = c ∧ first.take (cString (b :: first)).length =
          second.take (cString (b :: first)).length := by
        simpa using same
      by_cases ends : b = 0
      · simp [cString, ends]
      · have longer : cString (b :: first) = b :: cString first := by
          simp [cString, ends]
        rw [longer, List.length_cons] at later
        obtain ⟨texts, nuls⟩ := ih later
        refine ⟨?_, ?_⟩
        · rw [longer, texts]
          simp [cString, ends]
        · simp [Ne.symm ends, nuls]

theorem requestFileName_same (same : (FieldRead.fileName p).same p q) :
    TransferManager.requestFileName p = TransferManager.requestFileName q := by
  have taken (m : Packet) (k w : Nat) : (m.read 80 w).take k = (m.read 80 k).take w := by
    simp only [Mem.read, ← List.map_take, List.take_range, Nat.min_comm]
  have begins : (p.read 80 (packetMaxSize - 80)).take
      ((cString (p.read 80 (packetMaxSize - 80))).length + 1) =
        (q.read 80 (packetMaxSize - 80)).take
          ((cString (p.read 80 (packetMaxSize - 80))).length + 1) := by
    rw [taken p, taken q]
    exact congrArg (List.take (packetMaxSize - 80)) same
  obtain ⟨texts, nuls⟩ := cString_same begins
  simp only [TransferManager.requestFileName, texts, nuls]

theorem writeWork_same {f : FileManager} {bytes : Option Nat}
    (same : ∀ r ∈ writeWorkReads f p, r.same p q) : f.writeWork p bytes = f.writeWork q bytes := by
  unfold FileManager.writeWork
  cases working : f.state with
  | working =>
    simp only [writeWorkReads, working, if_true, List.mem_cons, List.not_mem_nil, or_false,
      forall_eq_or_imp, forall_eq] at same
    obtain ⟨sizes, given⟩ := same
    have sizes : p.bSize = q.bSize := load_same sizes
    have given : p.dataBytes p.bSize = q.dataBytes p.bSize := given
    rw [given, sizes]
  | _ => rfl

theorem createRecvRequest_same {target : WriteTarget}
    (same : ∀ r ∈ m.createRecvRequestReads p target, r.same p q) :
    m.createRecvRequest p target = m.createRecvRequest q target := by
  unfold TransferManager.createRecvRequest
  unfold TransferManager.createRecvRequestReads at same
  cases found : TransferManager.getTransfer m.recvTransfers with
  | none => rfl
  | some i =>
    simp only [found, writeFileReads, List.cons_append, List.mem_cons, forall_eq_or_imp] at same
    obtain ⟨sizes, same⟩ := same
    have sizes : p.fileSize = q.fileSize := load_same sizes
    cases known : target.user with
    | none =>
      have unchanged : (m.modifyRecv i fun t => { t with
          fManager := (m.recvTransfers i).fManager }) = m := by
        simp [TransferManager.modifyRecv, TransferArray.modify, Function.update_eq_self]
      cases TransferManager.requestFileName p <;> cases TransferManager.requestFileName q <;>
        simp [FileManager.writeFile, known, unchanged]
    | some user =>
      have texts := requestFileName_same (same (.fileName p) (by simp [known]))
      cases opened : target.opened with
      | true =>
        have hdrs := hdr_same (same .hdr (by simp [FileManager.writeFile, known, opened]))
        simp only [texts, sizes, hdrs]
      | false =>
        simp only [texts, FileManager.writeFile, known, opened, Bool.false_eq_true, if_false]

theorem hostRequestValid_same {reply : Bool}
    (same : ∀ r ∈ m.hostRequestValidReads p reply, r.same p q) :
    m.hostRequestValid p reply = m.hostRequestValid q reply := by
  obtain ⟨ids, same⟩ := List.forall_mem_cons.mp same
  have ids : p.clientTransferId = q.clientTransferId := loadInt64_same ids
  simp only [TransferManager.hostRequestValid, ← ids]
  cases found : m.hostTransfers.search fun t =>
      t.state = .getResponse ∧ t.localId = p.clientTransferId with
  | none => rfl
  | some i =>
    rw [found] at same
    cases reply with
    | true =>
      have hdrs := hdr_same (same .hdr (by simp))
      rw [hdrs]
    | false => simp only [Bool.false_eq_true, if_false]

theorem recvData_same {bytes : Option Nat} (same : ∀ r ∈ m.recvDataReads p, r.same p q) :
    m.recvData p bytes = m.recvData q bytes := by
  obtain ⟨ids, same⟩ := List.forall_mem_cons.mp same
  have ids : p.tId = q.tId := loadInt64_same ids
  simp only [TransferManager.recvData, ← ids]
  cases found : m.recvTransfers.search fun t => t.state = .active ∧ p.tId = t.hdr.tId with
  | none => rfl
  | some i =>
    rw [found] at same
    simp only [writeWork_same same]

/-- The handlers of `Transfer_Manager` depend on nothing but their reads. -/
theorem handle_same (type : p.type? = q.type?) (same : ∀ r ∈ m.handleReads env p, r.same p q) :
    m.handle env p = m.handle env q := by
  unfold TransferManager.handle
  unfold TransferManager.handleReads at same
  rw [← type]
  cases named : p.type? with
  | none => rfl
  | some type =>
    simp only [named] at same
    cases type with
    | transferRequest => simp only [createRecvRequest_same same]
    | transferValid => simp only [hostRequestValid_same same]
    | transferInvalid => simp only [hostRequestValid_same same]
    | transferCancel =>
      have ids : p.tId = q.tId := loadInt64_same (same .tId (by simp))
      have senders : p.hdrFrom = q.hdrFrom := loadInt64_same (same .hdrFrom (by simp))
      simp only [TransferManager.recvCancel, Packet.hdr, ids, senders]
    | transferReply =>
      have ids : p.tId = q.tId := loadInt64_same (same .tId (by simp))
      have senders : p.hdrFrom = q.hdrFrom := loadInt64_same (same .hdrFrom (by simp))
      have accepts : p.replyAccept = q.replyAccept := load_same (same .replyAccept (by simp))
      simp only [ids, senders, accepts]
    | transferData => simp only [recvData_same same]
    | transferComplete =>
      have ids : p.tId = q.tId := loadInt64_same (same .tId (by simp))
      simp only [ids]
    | _ => rfl

theorem addUsers_same (users : List User) (same : ∀ r ∈ addUsersReads p, r.same p q) :
    addUsers users p = addUsers users q := by
  obtain ⟨lengths, same⟩ := List.forall_mem_cons.mp same
  have lengths : p.newUsersLen = q.newUsersLen := load_same lengths
  rw [addUsers, addUsers, ← lengths]
  congr 1
  apply List.map_congr_left
  intro i listed
  have entry : ∀ r ∈ [FieldRead.newUsersName i, .newUsersId i], r.same p q := by
    intro r member
    exact same r (List.mem_flatMap.mpr ⟨i, listed, member⟩)
  have names : p.newUsersName i = q.newUsersName i := entry (.newUsersName i) (by simp)
  have ids : p.newUsersId i = q.newUsersId i := loadInt64_same (entry (.newUsersId i) (by simp))
  rw [names, ids]

theorem removeUser_same (users : List User) (same : ∀ r ∈ removeUserReads users, r.same p q) :
    removeUser users p = removeUser users q := by
  cases users with
  | nil => simp only [removeUser, List.eraseP_nil]
  | cons user users =>
    have ids : p.delUserId = q.delUserId := loadInt64_same (same .delUserId (by simp [removeUserReads]))
    rw [removeUser, removeUser, ids]

end Locality

namespace Network

variable (n : Network)

/-- The network with another packet in its receive buffer. -/
def withPacket (q : Packet) : Network := { n with rbuf := { n.rbuf with data := q } }

/-- `analize` acts alike on packets that agree where it reads. -/
theorem analize_same {env : PacketEnv} {q : Packet}
    (same : ∀ r ∈ n.analizeReads env, r.same n.rbuf.packet q) :
    (n.withPacket q).analize env = (n.analize env).map (·.withPacket q) := by
  obtain ⟨types, same⟩ := List.forall_mem_cons.mp same
  have types : n.rbuf.packet.type? = q.type? := congrArg PacketType.ofCode? (load_same types)
  have packet : (n.withPacket q).rbuf.packet = q := rfl
  unfold analize
  simp only [packet, ← types]
  split at same
  · rename_i named
    have users := addUsers_same n.users same
    simp only [named, updateUsers, packet, ← types, if_true]
    rw [users]
    rfl
  · rename_i named
    have users := removeUser_same n.users same
    simp only [named, updateUsers, packet, ← types, reduceCtorEq, Option.some.injEq, if_false]
    rw [users]
    rfl
  · rename_i created left
    have handled := handle_same types same
    split
    · rename_i named
      simp only [serverResponse, packet, ← types]
      rfl
    · rename_i named
      simp only [serverResponse, packet, ← types]
      rfl
    · rename_i named
      exact absurd named created
    · rename_i named
      exact absurd named left
    · have manager : (n.withPacket q).manager = n.manager := rfl
      rw [manager, ← handled]
      cases n.manager.handle env n.rbuf.packet <;> rfl

end Network

/-! When the reads stay inside. -/

theorem cString_length_lt_iff {bytes : List UInt8} {k : Nat} (fits : k ≤ bytes.length) :
    (cString bytes).length < k ↔ 0 ∈ bytes.take k := by
  induction bytes generalizing k with
  | nil =>
    have none : k = 0 := Nat.le_zero.mp fits
    simp [none]
  | cons b bytes ih =>
    cases k with
    | zero => simp
    | succ k =>
      have later := ih (Nat.le_of_succ_le_succ fits)
      by_cases ends : b = 0
      · simp [cString, ends]
      · have longer : cString (b :: bytes) = b :: cString bytes := by
          simp [cString, ends]
        rw [longer, List.length_cons, Nat.succ_lt_succ_iff, later, List.take_succ_cons, List.mem_cons]
        simp [Ne.symm ends]

namespace FieldRead

/-- A whole field is inside where the packet is large enough. -/
theorem whole_inside {start size : Nat} (fits : start + size ≤ packetMaxSize) :
    (whole start size).inside := ⟨Nat.le_refl _, Nat.le_refl _, fits⟩

theorem fileName_inside_iff (p : Packet) : (fileName p).inside ↔ 0 ∈ p.fileName := by
  have long : fileNameLen ≤ (p.read 80 (packetMaxSize - 80)).length := by
    rw [Mem.read_length]
    decide
  have front : (p.read 80 (packetMaxSize - 80)).take fileNameLen = p.fileName :=
    p.read_take 80 (by decide)
  rw [← front, ← cString_length_lt_iff long]
  simp only [inside, fileName, fileNameLen, packetMaxSize]
  omega

theorem dataBytes_inside_iff (p : Packet) : (dataBytes p).inside ↔ p.bSize ≤ dataBytesSize := by
  simp only [inside, dataBytes, dataBytesSize, packetMaxSize]
  omega

theorem newUsersName_inside_iff (i : Nat) : (newUsersName i).inside ↔ i < clientListLen := by
  simp only [inside, newUsersName, pcNameMaxLen, clientListLen, packetMaxSize]
  omega

theorem newUsersId_inside_iff (i : Nat) : (newUsersId i).inside ↔ i < clientListLen := by
  simp only [inside, newUsersId, clientListLen, packetMaxSize]
  omega

end FieldRead

/-- Every read stays within its field. -/
def allInside (reads : List FieldRead) : Prop := ∀ r ∈ reads, r.inside

theorem allInside_cons {r : FieldRead} {reads : List FieldRead} (first : r.inside) :
    allInside (r :: reads) ↔ allInside reads := by
  simp only [allInside, List.forall_mem_cons, first, true_and]

theorem addUsersReads_inside_iff (p : Packet) :
    allInside (addUsersReads p) ↔ p.newUsersLen ≤ clientListLen := by
  have length : FieldRead.newUsersLen.inside := FieldRead.whole_inside (by decide)
  rw [addUsersReads, allInside_cons length]
  simp only [allInside, List.mem_flatMap, List.mem_range, List.mem_cons, List.not_mem_nil, or_false]
  constructor
  · intro inside
    cases counted : p.newUsersLen with
    | zero => exact Nat.zero_le _
    | succ k =>
      have last : k < p.newUsersLen := by omega
      exact (FieldRead.newUsersName_inside_iff k).mp (inside _ ⟨k, last, .inl rfl⟩)
  · rintro fits r ⟨i, listed, rfl | rfl⟩
    · exact (FieldRead.newUsersName_inside_iff i).mpr (by omega)
    · exact (FieldRead.newUsersId_inside_iff i).mpr (by omega)

namespace TransferManager

variable (m : TransferManager)

/-- The data written to a file is no longer than `bytes`. -/
def dataFits (p : Packet) : Prop :=
  ∀ i, (m.recvTransfers.search fun t => t.state = .active ∧ p.tId = t.hdr.tId) = some i →
    (m.recvTransfers i).fManager.state = .working → p.bSize ≤ dataBytesSize

/-- The name of a file to open ends within `file_name`. -/
def nameEnds (target : WriteTarget) (p : Packet) : Prop :=
  (∃ i, (m.recvTransfers i).state = .empty) → target.user ≠ none → 0 ∈ p.fileName

theorem recvDataReads_inside_iff (p : Packet) : allInside (m.recvDataReads p) ↔ m.dataFits p := by
  have tId : FieldRead.tId.inside := FieldRead.whole_inside (by decide)
  rw [recvDataReads, allInside_cons tId, dataFits]
  split
  · rename_i absent
    simp only [absent, reduceCtorEq, false_implies, implies_true, iff_true]
    simp [allInside]
  · rename_i i found
    simp only [found, Option.some.injEq, forall_eq', writeWorkReads]
    split
    · rename_i working
      have size : FieldRead.bSize.inside := FieldRead.whole_inside (by decide)
      rw [allInside_cons size]
      simp [allInside, FieldRead.dataBytes_inside_iff, working]
    · rename_i idle
      simp [allInside, idle]

theorem createRecvRequestReads_inside_iff (target : WriteTarget) (p : Packet) :
    allInside (m.createRecvRequestReads p target) ↔ m.nameEnds target p := by
  have size : FieldRead.fileSize.inside := FieldRead.whole_inside (by decide)
  have hdr : FieldRead.hdr.inside := FieldRead.whole_inside (by decide)
  rw [createRecvRequestReads, nameEnds, ← FieldRead.fileName_inside_iff]
  split
  · rename_i absent
    have busy : ¬ ∃ i, (m.recvTransfers i).state = .empty := by
      rintro ⟨i, idle⟩
      simpa [idle] using TransferArray.search_none absent i
    simp [allInside, busy]
  · rename_i i found
    have idle : (m.recvTransfers i).state = .empty := by
      simpa using TransferArray.search_some found
    have free : ∃ i, (m.recvTransfers i).state = .empty := ⟨i, idle⟩
    rw [writeFileReads, List.cons_append, allInside_cons size]
    simp only [free, true_implies]
    cases known : target.user with
    | none => simp [allInside, FileManager.writeFile, known]
    | some user =>
      cases opened : target.opened with
      | true => simp [allInside, FileManager.writeFile, known, opened, hdr]
      | false => simp [allInside, FileManager.writeFile, known, opened]

theorem hostRequestValidReads_inside (p : Packet) (reply : Bool) :
    allInside (m.hostRequestValidReads p reply) := by
  have id : FieldRead.clientTransferId.inside := FieldRead.whole_inside (by decide)
  have hdr : FieldRead.hdr.inside := FieldRead.whole_inside (by decide)
  rw [hostRequestValidReads, allInside_cons id]
  split
  · simp [allInside]
  · split <;> simp [allInside, hdr]

/-- The reads stay inside where the lengths a packet brings fit their fields. -/
def lengthsFit (env : PacketEnv) (p : Packet) : Prop :=
  (p.type? = some .transferData → m.dataFits p) ∧
    (p.type? = some .transferRequest → m.nameEnds env.target p)

theorem handleReads_inside_iff (env : PacketEnv) (p : Packet) :
    allInside (m.handleReads env p) ↔ m.lengthsFit env p := by
  have tId : FieldRead.tId.inside := FieldRead.whole_inside (by decide)
  have hdrFrom : FieldRead.hdrFrom.inside := FieldRead.whole_inside (by decide)
  have replyAccept : FieldRead.replyAccept.inside := FieldRead.whole_inside (by decide)
  unfold handleReads lengthsFit
  split
  case h_1 named => simp [named, m.createRecvRequestReads_inside_iff]
  case h_2 named => simp [named, m.hostRequestValidReads_inside]
  case h_3 named => simp [named, m.hostRequestValidReads_inside]
  case h_4 named => simp [named, allInside, tId, hdrFrom]
  case h_5 named => simp [named, allInside, tId, hdrFrom, replyAccept]
  case h_6 named => simp [named, m.recvDataReads_inside_iff]
  case h_7 named => simp [named, allInside, tId]
  case h_8 request _ _ _ _ data _ =>
    have none : allInside [] := by simp [allInside]
    exact iff_of_true none ⟨fun named => (data named).elim, fun named => (request named).elim⟩

end TransferManager

namespace Network

/-- The lengths a packet brings fit their fields. -/
def lengthsFit (n : Network) (env : PacketEnv) : Prop :=
  (n.rbuf.packet.type? = some .serverNewUsers → n.rbuf.packet.newUsersLen ≤ clientListLen) ∧
    n.manager.lengthsFit env n.rbuf.packet

theorem analizeReads_inside_iff (n : Network) (env : PacketEnv) :
    allInside (n.analizeReads env) ↔ n.lengthsFit env := by
  have type : FieldRead.type.inside := FieldRead.whole_inside (by decide)
  rw [analizeReads, allInside_cons type, lengthsFit]
  split
  · rename_i named
    simp [named, addUsersReads_inside_iff, TransferManager.lengthsFit]
  · rename_i named
    have id : FieldRead.delUserId.inside := FieldRead.whole_inside (by decide)
    simp only [named, TransferManager.lengthsFit, removeUserReads]
    split <;> simp [allInside, id]
  · rename_i created _
    rw [n.manager.handleReads_inside_iff, and_iff_right fun named => (created named).elim]

/-- `prop` holds of every packet this event hands to `analize`. -/
def analized (prop : Network → PacketEnv → Prop) (n : Network) : NetEvent → Prop
  | .recv env chunk => ∀ k, n.delivers (.recv env chunk) = some k → prop k env
  | _ => True

/-- Along every run the handlers read only inside the fields exactly if no list
of users is longer than 32, no data written to a file longer than `bytes`, and
every name of a file to open ends in `file_name`. -/
theorem reads_iff (msg : Session) (events : List NetEvent) :
    Guarded step (analized fun k env => allInside (k.analizeReads env)) (init msg) events ↔
      Guarded step (analized lengthsFit) (init msg) events := by
  apply guarded_congr
  intro n e
  cases e with
  | recv env chunk =>
    exact forall_congr' fun k => imp_congr_right fun _ => k.analizeReads_inside_iff env
  | _ => exact Iff.rfl

instance (prop : Network → PacketEnv → Prop) [∀ k env, Decidable (prop k env)] (n : Network) :
    (e : NetEvent) → Decidable (n.analized prop e)
  | .recv env chunk =>
    decidable_of_iff ((n.delivers (.recv env chunk)).all fun k => prop k env)
      (by simp [analized, Option.all_eq_true])
  | .session _ _ _ | .cmd _ | .checkWrite _ | .write _ => isTrue trivial

instance (n : Network) : (e : NetEvent) → Decidable (n.headerFits e)
  | .recv _ chunk =>
    have : Decidable (n.rbuf.overlong chunk) := inferInstanceAs (Decidable (_ ∧ _))
    inferInstanceAs (Decidable (n.rbuf.readable chunk → ¬ n.rbuf.overlong chunk))
  | .session _ _ _ | .cmd _ | .checkWrite _ | .write _ => isTrue trivial

end Network

/-- A list of 33 users, none of them named. -/
def longUserList : Packet :=
  (Packet.packetHdr .serverNewUsers newUsersSize (Mem.zero packetMaxSize)).store 776 1 33

/-- `add_users` believes the length it is told. -/
theorem reads_leave_fields : ¬ ∀ msg events,
    Guarded Network.step Network.headerFits (.init msg) events →
      Guarded Network.step (Network.analized fun k env => allInside (k.analizeReads env))
        (.init msg) events := by
  intro all
  let events : List NetEvent :=
    [.recv .none (longUserList.read 0 hdrSize), .recv .none (longUserList.read hdrSize newUsersSize)]
  have fits : Guarded Network.step Network.headerFits (.init joinRequest) events := by
    decide +kernel
  have long : ¬ Guarded Network.step
      (Network.analized fun k _ => k.rbuf.packet.type? = some .serverNewUsers →
        k.rbuf.packet.newUsersLen ≤ clientListLen) (.init joinRequest) events := by
    decide +kernel
  have lengths := (Network.reads_iff joinRequest events).mp (all joinRequest events fits)
  apply long
  apply lengths.mono
  intro n e fit
  cases e with
  | recv env chunk => exact fun k delivered => (fit k delivered).1
  | _ => trivial

end Quickshare
