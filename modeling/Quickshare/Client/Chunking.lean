import Quickshare.Client.FileManager
import Quickshare.Lib.Runs

/-! A file cut into data packets and put together again. Between two calls of
`read_work` the bytes still to be sent are those left in the block and those the
stream has not given yet. -/

namespace Quickshare

open Runs Bytes

namespace FileManager

/-- Calls of `read_work`, one for each packet memory, until it is not working: the
packets it filled and the state it returned last. -/
def readAll (f : FileManager) : List Packet → Except Abort (List Packet × FileState × FileManager)
  | [] => .ok ([], f.state, f)
  | memory :: rest => do
    let (state, packet, f) ← f.readWork memory none
    if state = .working then
      let (packets, last, f) ← f.readAll rest
      return (packet :: packets, last, f)
    else return ([], state, f)

/-- Calls of `write_work` with the packets in order, each `fwrite` complete. -/
def writeAll (f : FileManager) : List Packet → Except Abort FileManager
  | [] => .ok f
  | packet :: rest => do
    let f ← f.writeWork packet none
    f.writeAll rest

/-- A data packet that holds `bytes` and nothing else. -/
structure Carries (packet : Packet) (bytes : List UInt8) : Prop where
  type : Packet.type? packet = some .transferData
  least : 1 ≤ Packet.bSize packet
  most : Packet.bSize packet ≤ dataBytesSize
  data : Packet.dataBytes packet (Packet.bSize packet) = bytes

/-- A file that is being read and of which `rest` is still to be sent. -/
structure Reading (f : FileManager) (stream : Stream) (rest : List UInt8) : Prop where
  working : f.state = .working
  opened : f.fileFd = some stream
  sound : stream.failed = false
  inside : f.bufCnt + f.bufLen ≤ f.buf.length ∨ f.bufLen = 0
  left : (f.buf.drop f.bufCnt).take f.bufLen ++ stream.unread = rest

/-- A file that is being written and holds `done` so far. -/
structure Writing (f : FileManager) (done : List UInt8) : Prop where
  working : f.state = .working
  sized : f.fileSize ≠ 0
  held : ∃ stream, f.fileFd = some stream ∧ stream.written = done

section Reads

variable {f g : FileManager} {stream : Stream} {rest : List UInt8}

/-- What `sendBlock` puts into a packet. -/
theorem sendBlock_carries (f : FileManager) (stream : Stream) (memory : Packet)
    (inside : f.bufCnt + f.bufLen ≤ f.buf.length) (filled : f.bufLen ≠ 0) :
    Carries (f.sendBlock stream memory).1
      ((f.buf.drop f.bufCnt).take (min f.bufLen dataBytesSize)) := by
  obtain ⟨size, same⟩ : ∃ size, min f.bufLen dataBytesSize = size := ⟨_, rfl⟩
  have limits : dataBytesSize = 1416 ∧ packetMaxSize = 1440 := ⟨rfl, rfl⟩
  have bound : 1 ≤ size ∧ size ≤ dataBytesSize ∧ size ≤ f.bufLen := by omega
  have chunk : ((f.buf.drop f.bufCnt).take size).length = size := by
    rw [List.length_take, List.length_drop]
    omega
  have header : Packet.bSize (f.sendBlock stream memory).1 = size := by
    rw [sendBlock, same, Packet.bSize, Mem.load_write_apart _ _ (.inl (by decide)),
      Mem.load_store _ (by decide), Nat.mod_eq_of_lt (by omega)]
  have data : Packet.dataBytes (f.sendBlock stream memory).1 size =
      (f.buf.drop f.bufCnt).take size := by
    have copied := Mem.read_write
      (((Packet.packetHdr .transferData transferDataSize memory).store 16 8 size))
      ((f.buf.drop f.bufCnt).take size)
      (show 24 + ((f.buf.drop f.bufCnt).take size).length ≤ packetMaxSize by omega)
    rw [chunk] at copied
    rw [sendBlock, same]
    exact copied
  refine ⟨?_, by omega, by omega, by rw [header, same, data]⟩
  rw [sendBlock, Packet.type?_write _ _ (by decide), Packet.type?_store _ _ _ (by decide),
    Packet.type?_packetHdr]

/-- The block after a packet: what the packet carries is gone from its front. -/
theorem sendBlock_left (f : FileManager) (stream : Stream) (memory : Packet) :
    (f.buf.drop f.bufCnt).take f.bufLen =
      (f.buf.drop f.bufCnt).take (min f.bufLen dataBytesSize) ++
        ((f.sendBlock stream memory).2.buf.drop (f.sendBlock stream memory).2.bufCnt).take
          (f.sendBlock stream memory).2.bufLen := by
  have split : f.bufLen = min f.bufLen dataBytesSize + (f.bufLen - min f.bufLen dataBytesSize) := by
    omega
  conv_lhs => rw [split, List.take_add, List.drop_drop]
  rfl

/-- A block that holds something gives a packet and keeps the rest. -/
theorem sendBlock_reading (memory : Packet) (reading : f.Reading stream rest)
    (filled : f.bufLen ≠ 0) : ∃ bytes later, Carries (f.sendBlock stream memory).1 bytes ∧
      (f.sendBlock stream memory).2.Reading stream later ∧ rest = bytes ++ later := by
  have inside : f.bufCnt + f.bufLen ≤ f.buf.length := reading.inside.resolve_right filled
  refine ⟨_, _, sendBlock_carries f stream memory inside filled, ⟨reading.working, reading.opened,
    reading.sound, ?_, rfl⟩, ?_⟩
  · left
    simp only [sendBlock]
    omega
  · rw [← reading.left, sendBlock_left f stream memory, List.append_assoc]

/-- The file with the next block in `buf`. -/
def loaded (f : FileManager) (stream : Stream) : FileManager :=
  { f with
    fileFd := some (fread stream none).2
    buf := (fread stream none).1 ++ f.buf.drop (fread stream none).1.length
    bufLen := (fread stream none).1.length
    bufCnt := 0 }

theorem readWork_eq (memory : Packet) (reading : f.Reading stream rest) :
    f.readWork memory none =
      if f.bufLen ≠ 0 then
        .ok ((f.sendBlock stream memory).2.state, f.sendBlock stream memory)
      else if stream.unread = [] then
        .ok (.complete, memory, { f.loaded stream with state := .complete, bufCnt := f.bufCnt })
      else .ok (((f.loaded stream).sendBlock (fread stream none).2 memory).2.state,
        (f.loaded stream).sendBlock (fread stream none).2 memory) := by
  have sound : (fread stream none).2.failed = false := by
    simp only [fread, reading.sound, Option.isSome_none, Bool.or_self]
  have empty : (fread stream none).1 = [] ↔ stream.unread = [] := by
    simp [fread]
  unfold readWork readFromFile
  simp only [reading.working, reading.opened, sound, Bool.false_eq_true, and_false, if_false, empty]
  by_cases loads : f.bufLen = 0
  · simp only [loads, if_true, ne_eq, not_true_eq_false, if_false]
    by_cases drained : stream.unread = []
    · simp only [drained, if_true]
      rfl
    · simp only [drained, if_false, loaded, reading.working]
      rfl
  · simp only [loads, ne_eq, not_false_eq_true, if_true, if_false]
    rfl

theorem loaded_reading (reading : f.Reading stream rest) (loads : f.bufLen = 0) :
    (f.loaded stream).Reading (fread stream none).2 rest := by
  have unread : stream.unread = rest := by
    have left := reading.left
    rwa [loads, List.take_zero, List.nil_append] at left
  refine ⟨reading.working, rfl, ?_, .inl ?_, ?_⟩
  · simp only [fread, reading.sound, Option.isSome_none, Bool.or_self]
  · simp [loaded]
  · rw [loaded, List.drop_zero, List.take_left' rfl, ← unread]
    simp only [fread, List.length_take]
    rw [List.take_eq_take_min, List.take_append_drop]

/-- Without anything left a call completes; otherwise it fills a packet with some
of the bytes left, from the front. -/
theorem readWork_reading (memory : Packet) (reading : f.Reading stream rest) :
    (rest = [] ∧ ∃ g, f.readWork memory none = .ok (.complete, memory, g)) ∨
    ∃ packet g later bytes behind, f.readWork memory none = .ok (.working, packet, g) ∧
      Carries packet bytes ∧ g.Reading later behind ∧ rest = bytes ++ behind := by
  rw [readWork_eq memory reading]
  by_cases loads : f.bufLen = 0
  · rw [if_neg (by simpa using loads)]
    by_cases drained : stream.unread = []
    · rw [if_pos drained]
      refine .inl ⟨?_, _, rfl⟩
      rw [← reading.left, loads, drained, List.take_zero, List.append_nil]
    · rw [if_neg drained]
      have filled : (f.loaded stream).bufLen ≠ 0 := by
        simpa [loaded, fread] using drained
      obtain ⟨bytes, behind, carries, goes, same⟩ :=
        sendBlock_reading memory (loaded_reading reading loads) filled
      refine .inr ⟨_, _, _, bytes, behind, ?_, carries, goes, same⟩
      rw [goes.working]
  · rw [if_pos loads]
    obtain ⟨bytes, behind, carries, goes, same⟩ := sendBlock_reading memory reading loads
    refine .inr ⟨_, _, _, bytes, behind, ?_, carries, goes, same⟩
    rw [goes.working]

/-- Reading on completes within one call more than there are bytes left, and the
packets carry these bytes in order. -/
theorem readAll_reading (memories : List Packet) (reading : f.Reading stream rest)
    (enough : rest.length < memories.length) :
    ∃ packets g, f.readAll memories = .ok (packets, .complete, g) ∧
      (∀ packet ∈ packets, ∃ bytes, Carries packet bytes) ∧
      packets.flatMap (fun packet => Packet.dataBytes packet (Packet.bSize packet)) = rest := by
  induction memories generalizing f stream rest with
  | nil => exact absurd enough (by simp)
  | cons memory memories ih =>
    rw [readAll]
    rcases readWork_reading memory reading with ⟨done, g, completes⟩ | goes
    · refine ⟨[], g, ?_, fun _ member => absurd member List.not_mem_nil, done.symm⟩
      rw [completes]
      rfl
    · obtain ⟨packet, g, later, bytes, behind, sends, carries, reads, same⟩ := goes
      have shorter : behind.length < memories.length := by
        have least : 1 ≤ bytes.length := by
          rw [← carries.data, Packet.dataBytes, Mem.read_length]
          exact carries.least
        rw [same, List.length_append, List.length_cons] at enough
        omega
      obtain ⟨packets, last, all, carried, joined⟩ := ih reads shorter
      refine ⟨packet :: packets, last, ?_, ?_, ?_⟩
      · rw [sends]
        simp only [bind, Except.bind, if_true, all]
        rfl
      · intro p member
        rcases List.mem_cons.mp member with rfl | member
        · exact ⟨bytes, carries⟩
        · exact carried p member
      · rw [List.flatMap_cons, carries.data, joined, same]

theorem readFile_reading (f : FileManager) (path : List UInt8) (image : FileImage)
    (nonempty : image.content ≠ []) (size : image.size.toInt = image.content.length) :
    (f.readFile path (some image)).1 = true ∧
      ∃ stream, (f.readFile path (some image)).2.Reading stream image.content := by
  have sized : image.size.toUInt64.toNat ≠ 0 := by
    intro unsized
    have zero : image.size = 0 := by
      have word : image.size.toUInt64 = 0 := UInt64.toNat_inj.mp unsized
      rw [← Int64.toInt64_toUInt64 image.size, word]
      rfl
    rw [zero] at size
    have empty : image.content.length = 0 := by simpa using size.symm
    exact nonempty (List.length_eq_zero_iff.mp empty)
  simp only [readFile, if_neg sized, true_and]
  exact ⟨_, rfl, rfl, rfl, .inr rfl, rfl⟩

end Reads

section Writes

variable {f : FileManager} {done : List UInt8}

theorem writeWork_writing {packet : Packet} {bytes : List UInt8} (writing : f.Writing done)
    (carries : Carries packet bytes) :
    ∃ g, f.writeWork packet none = .ok g ∧ g.Writing (done ++ bytes) := by
  obtain ⟨stream, held, written⟩ := writing.held
  have inside : ¬ packetMaxSize < 24 + Packet.bSize packet := by
    have limits : dataBytesSize = 1416 ∧ packetMaxSize = 1440 := ⟨rfl, rfl⟩
    have most := carries.most
    omega
  simp only [writeWork, writing.working, held, if_neg inside, Option.any_none, Bool.false_eq_true,
    if_false, if_neg writing.sized, carries.data]
  exact ⟨_, rfl, rfl, writing.sized, _, rfl, by rw [written]⟩

theorem writeAll_writing {packets : List Packet} (writing : f.Writing done)
    (carried : ∀ packet ∈ packets, ∃ bytes, Carries packet bytes) :
    ∃ g, f.writeAll packets = .ok g ∧ g.Writing (done ++
      packets.flatMap fun packet => Packet.dataBytes packet (Packet.bSize packet)) := by
  induction packets generalizing f done with
  | nil => exact ⟨f, rfl, by simpa using writing⟩
  | cons packet rest ih =>
    obtain ⟨bytes, carries⟩ := carried packet List.mem_cons_self
    obtain ⟨g, writes, goes⟩ := writeWork_writing writing carries
    obtain ⟨last, all, ends⟩ := ih goes fun p member => carried p (List.mem_cons_of_mem _ member)
    refine ⟨last, ?_, ?_⟩
    · rw [writeAll, writes]
      exact all
    · rw [List.flatMap_cons, carries.data, ← List.append_assoc]
      exact ends

theorem writeFile_writing (f : FileManager) (name : List UInt8) {size : Nat} {target : WriteTarget}
    (sized : size ≠ 0) (opens : (f.writeFile name size target).1 = true) :
    (f.writeFile name size target).2.Writing [] := by
  unfold writeFile at opens ⊢
  cases user : target.user with
  | none => simp [user] at opens
  | some user =>
    by_cases opened : target.opened = true
    · simp only [opened, if_true]
      exact ⟨rfl, sized, _, rfl, rfl⟩
    · simp [user, opened] at opens

end Writes

/-- A file that is not empty is cut into data packets of 1 to 1416 bytes until
`read_work` returns COMPLETE, whatever the packet memories hold, and a file opened
for writing, with any announced size but 0, then holds exactly its bytes. -/
theorem chunks_roundTrip (f g : FileManager) (path name : List UInt8) (image : FileImage)
    (size : Nat) (target : WriteTarget) (memories : List Packet)
    (nonempty : image.content ≠ []) (measured : image.size.toInt = image.content.length)
    (sized : size ≠ 0) (opens : (g.writeFile name size target).1 = true)
    (enough : image.content.length < memories.length) :
    (f.readFile path (some image)).1 = true ∧ ∃ packets last,
      (f.readFile path (some image)).2.readAll memories = .ok (packets, .complete, last) ∧
      (∀ packet ∈ packets, Packet.type? packet = some .transferData ∧
        1 ≤ Packet.bSize packet ∧ Packet.bSize packet ≤ dataBytesSize) ∧
      ∃ written stream, (g.writeFile name size target).2.writeAll packets = .ok written ∧
        written.fileFd = some stream ∧ stream.written = image.content := by
  obtain ⟨reads, stream, reading⟩ := readFile_reading f path image nonempty measured
  obtain ⟨packets, last, all, carried, joined⟩ := readAll_reading memories reading enough
  obtain ⟨written, writes, writing⟩ := writeAll_writing (writeFile_writing g name sized opens) carried
  obtain ⟨stream', held, same⟩ := writing.held
  refine ⟨reads, packets, last, all, ?_, written, stream', writes, held, ?_⟩
  · intro packet member
    obtain ⟨bytes, carries⟩ := carried packet member
    exact ⟨carries.type, carries.least, carries.most⟩
  · rw [same, joined, List.nil_append]

/-- A file of 4000 bytes, which `fread` gives in two blocks. -/
def twoBlocks : FileImage := ⟨(List.range 4000).map UInt8.ofNat, 4000⟩

theorem twoBlocks_length : twoBlocks.content.length = 4000 := by
  rw [twoBlocks, List.length_map, List.length_range]

/-- The 4000 bytes are sent in packets and written again. -/
theorem chunks_roundTrip_blocks : ∃ packets last written stream,
    ((FileManager.init .readFile).readFile (ascii "a") (some twoBlocks)).2.readAll
      (List.replicate 4001 (Mem.zero packetMaxSize)) = .ok (packets, .complete, last) ∧
    ((FileManager.init .writeFile).writeFile (ascii "a") 4000 ⟨some (ascii "u"), true⟩).2.writeAll
      packets = .ok written ∧
    written.fileFd = some stream ∧ stream.written = twoBlocks.content := by
  have nonempty : twoBlocks.content ≠ [] := by
    intro empty
    have short := twoBlocks_length
    simp [empty] at short
  have measured : twoBlocks.size.toInt = twoBlocks.content.length := by
    rw [twoBlocks_length]
    decide
  have enough : twoBlocks.content.length <
      (List.replicate 4001 (Mem.zero packetMaxSize)).length := by
    rw [twoBlocks_length, List.length_replicate]
    decide
  have opens : ((FileManager.init .writeFile).writeFile (ascii "a") 4000
      ⟨some (ascii "u"), true⟩).1 = true := rfl
  obtain ⟨-, packets, last, all, -, written, stream, writes, held, same⟩ :=
    chunks_roundTrip (.init .readFile) (.init .writeFile) (ascii "a") (ascii "a") twoBlocks 4000
      ⟨some (ascii "u"), true⟩ (List.replicate 4001 (Mem.zero packetMaxSize)) nonempty measured
      (Nat.succ_ne_zero _) opens enough
  exact ⟨packets, last, written, stream, all, writes, held, same⟩

end FileManager

end Quickshare
