import Quickshare.Shared.Message

/-! `file_manager.cpp`: one open file of a transfer slot, read in 3072-byte
blocks and sent in packets, or written as packets arrive. -/

namespace Quickshare

open Bytes

/-- What stops the client process. -/
inductive Abort where
  /-- `assert(file_fd)` in `read_from_file`, or a write without a stream. -/
  | fileFd
  /-- `assert(bytes == t_data->b_size)` in `write_work`. -/
  | shortWrite
  /-- A progress computed for an empty file. -/
  | division
  /-- `assert(create_recv_request(...))` in `analize`. -/
  | request
  /-- `assert(false)` in `read_data` once the server is gone. -/
  | disconnect
  /-- `assert(false)` in `write_data`. -/
  | sslWrite
  /-- An access outside a packet. -/
  | outOfBounds
  deriving DecidableEq, Repr

/-- A `FILE*` with what `fread` has still to give and `fwrite` was given. -/
structure Stream where
  path : List UInt8
  unread : List UInt8
  written : List UInt8
  /-- `ferror`. -/
  failed : Bool
  /-- `ftell`. -/
  position : Nat
  deriving DecidableEq

inductive FileType where
  | readFile
  | writeFile
  deriving DecidableEq, Repr

inductive FileState where
  | empty
  | error
  | working
  | complete
  deriving DecidableEq, Repr

/-- What was done to files through one `File_Manager` (kept for specifications). -/
inductive FileAct where
  | open (type : FileType) (path : List UInt8)
  | write (bytes : List UInt8)
  | close
  deriving DecidableEq

structure FileManager where
  type : FileType
  state : FileState
  progress : Nat
  fileFd : Option Stream
  buf : List UInt8
  bufLen : Nat
  bufCnt : Nat
  fileSize : Nat
  acts : List FileAct
  deriving DecidableEq

def FileManager.init (type : FileType) : FileManager where
  type := type
  state := .empty
  progress := 0
  fileFd := none
  buf := []
  bufLen := 0
  bufCnt := 0
  fileSize := 0
  acts := []

/-- What `fopen` finds for reading: the bytes and what `get_file_size` returns. -/
structure FileImage where
  content : List UInt8
  size : Int64
  deriving DecidableEq

/-- One `fread` of a block: `none` unless reading fails after some bytes. -/
abbrev FRead := Option Nat

/-- What `write_file` meets: `getenv("USER")` and whether `fopen` succeeds. -/
structure WriteTarget where
  user : Option (List UInt8)
  opened : Bool

/-- The bytes of a string literal. -/
def ascii (text : String) : List UInt8 := text.toList.map fun c => UInt8.ofNat c.toNat

namespace FileManager

/-- A stream stays open when the size is 0. -/
def readFile (f : FileManager) (path : List UInt8) (found : Option FileImage) :
    Bool × FileManager :=
  match found with
  | none => (false, { f with fileFd := none })
  | some image =>
    let f := { f with
      fileFd := some ⟨path, image.content, [], false, 0⟩
      fileSize := image.size.toUInt64.toNat
      acts := f.acts ++ [.open .readFile path] }
    if f.fileSize = 0 then (false, f)
    else (true, { f with bufLen := 0, bufCnt := 0, state := .working, progress := 0 })

/-- `download_path` for Linux. -/
def downloadPath (user filename : List UInt8) : List UInt8 :=
  ascii "/home/" ++ user ++ ascii "/Downloads/" ++ filename

def writeFile (f : FileManager) (filename : List UInt8) (fSize : Nat) (target : WriteTarget) :
    Bool × FileManager :=
  match target.user with
  | none => (false, f)
  | some user =>
    let path := downloadPath user filename
    if target.opened then
      (true, { f with
        fileFd := some ⟨path, [], [], false, 0⟩
        state := .working
        fileSize := fSize
        bufLen := 0
        progress := 0
        acts := f.acts ++ [.open .writeFile path] })
    else (false, { f with fileFd := none })

def close (f : FileManager) : FileManager :=
  { f with state := .empty, acts := f.acts ++ [.close] }

/-- `fread` of one block from `stream`. -/
def fread (stream : Stream) (result : FRead) : List UInt8 × Stream :=
  let block := stream.unread.take fileBufferSize
  let bytes := match result with
    | none => block
    | some stop => block.take stop
  (bytes, { stream with
    unread := stream.unread.drop bytes.length
    failed := stream.failed || result.isSome
    position := stream.position + bytes.length })

/-- The block in `buf` goes into the packet piece by piece. -/
def sendBlock (f : FileManager) (stream : Stream) (packet : Packet) : Packet × FileManager :=
  let sendSize := min f.bufLen dataBytesSize
  let packet := ((Packet.packetHdr .transferData transferDataSize packet).store 16 8 sendSize).write
    24 ((f.buf.drop f.bufCnt).take sendSize)
  (packet, { f with
    bufLen := f.bufLen - sendSize
    bufCnt := f.bufCnt + sendSize
    progress := stream.position * 100 % 2 ^ 64 / f.fileSize % 2 ^ 32 })

def readFromFile (f : FileManager) (packet : Packet) (result : FRead) :
    Except Abort (Bool × Packet × FileManager) :=
  match f.fileFd with
  | none => .error .fileFd
  | some stream =>
    if f.bufLen = 0 then
      let (bytes, stream) := fread stream result
      let f := { f with
        fileFd := some stream
        buf := bytes ++ f.buf.drop bytes.length
        bufLen := bytes.length }
      if bytes = [] ∧ stream.failed then .ok (false, packet, f)
      else if bytes = [] then .ok (true, packet, { f with state := .complete })
      else .ok (true, { f with bufCnt := 0 }.sendBlock stream packet)
    else .ok (true, f.sendBlock stream packet)

def readWork (f : FileManager) (packet : Packet) (result : FRead) :
    Except Abort (FileState × Packet × FileManager) :=
  match f.state with
  | .working => do
    let (going, packet, f) ← f.readFromFile packet result
    let f := if going then f else { f with state := .error }
    return (f.state, packet, f)
  | _ => .ok (f.state, packet, f)

/-- `bytes` is what one `fwrite` returns at most. -/
def writeWork (f : FileManager) (data : Packet) (bytes : Option Nat) : Except Abort FileManager :=
  match f.state with
  | .working => match f.fileFd with
    | none => .error .fileFd
    | some stream =>
      if packetMaxSize < 24 + data.bSize then .error .outOfBounds
      else if bytes.any (· < data.bSize) then .error .shortWrite
      else if f.fileSize = 0 then .error .division
      else
        let given := data.dataBytes data.bSize
        let bufLen := (f.bufLen + data.bSize) % 2 ^ 64
        .ok { f with
          fileFd := some { stream with written := stream.written ++ given }
          bufLen
          progress := bufLen * 100 % 2 ^ 64 / f.fileSize % 2 ^ 32
          acts := f.acts ++ [.write given] }
  | _ => .ok f

end FileManager

end Quickshare
