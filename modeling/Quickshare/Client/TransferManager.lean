import Quickshare.Client.FileManager
import Mathlib.Logic.Function.Basic

/-! `transfer_manager.cpp`: six transfers hosted and six received, each a slot
with its own state machine and file. -/

namespace Quickshare

open Bytes

/-- `Transfer_Hdr`. -/
structure TransferHdr where
  tId : TransferId
  sender : ClientId
  recipients : Fin transferClientsMax → ClientId

def TransferHdr.zero : TransferHdr := ⟨0, 0, fun _ => 0⟩

/-- `d.request.hdr`, `d.transfer_state.hdr` and `d.transfer_reply.hdr`. -/
def Packet.hdr (p : Packet) : TransferHdr := ⟨p.tId, p.hdrFrom, fun i => p.hdrTo i⟩

/-- `memcpy` of a whole `Transfer_Hdr` into the packet. -/
def Packet.setHdr (p : Packet) (hdr : TransferHdr) : Packet :=
  (List.finRange transferClientsMax).foldl
    (fun (p : Packet) i => p.storeInt64 (24 + 8 * i.val) (hdr.recipients i))
    ((p.storeInt64 8 hdr.tId).storeInt64 16 hdr.sender)

/-- `Active_Transfer::State`. -/
inductive TransferState where
  | empty
  | cancel
  | sendReq
  | getResponse
  | accept
  | deny
  | pending
  | active
  deriving DecidableEq, Repr

structure ActiveTransfer where
  state : TransferState
  hdr : TransferHdr
  acceptList : Fin transferClientsMax → TransferState
  localId : TransferId
  pastSend : Int
  file : List UInt8
  fileSize : Int64
  fManager : FileManager

def ActiveTransfer.canCancel (t : ActiveTransfer) : Bool :=
  t.state = .active ∨ t.state = .pending ∨ t.state = .getResponse

/-- A slot when `Transfer_Manager` has been constructed. -/
def ActiveTransfer.init (type : FileType) : ActiveTransfer where
  state := .empty
  hdr := .zero
  acceptList := fun _ => .empty
  localId := 0
  pastSend := 0
  file := []
  fileSize := 0
  fManager := .init type

/-- `Transfer_Info::State`. -/
inductive InfoState where
  | cancelled
  | denied
  | rejected
  | complete
  deriving DecidableEq, Repr

/-- `Transfer_Info`. -/
structure BacklogEntry where
  state : InfoState
  file : List UInt8
  deriving DecidableEq, Repr

/-- `sizeof(Transfer_Cmd::d.req)`: a path of 128 bytes, then six ids. -/
abbrev cmdRequestSize : Nat := 2 * fileNameLen + 8 * transferClientsMax

/-- `Transfer_Cmd`. -/
inductive TransferCmd where
  | request (req : Mem cmdRequestSize)
  | reply (tId : TransferId) (reply : Bool)
  | cancel (tId : TransferId)

/-- The path as the C string it is read as. -/
def TransferCmd.path (req : Mem cmdRequestSize) : List UInt8 := cString (req.read 0 cmdRequestSize)

def TransferCmd.recipients (req : Mem cmdRequestSize) (i : Fin transferClientsMax) : ClientId :=
  req.loadInt64 (2 * fileNameLen + 8 * i)

abbrev TransferArray := Fin simTransfersMax → ActiveTransfer

namespace TransferArray

/-- `std::find_if`. -/
def search (ts : TransferArray) (p : ActiveTransfer → Bool) : Option (Fin simTransfersMax) :=
  (List.finRange simTransfersMax).find? fun i => p (ts i)

def modify (ts : TransferArray) (i : Fin simTransfersMax) (f : ActiveTransfer → ActiveTransfer) :
    TransferArray :=
  Function.update ts i (f (ts i))

end TransferArray

structure TransferManager where
  backlog : List BacklogEntry
  clientTransferIds : TransferId
  cmdQueue : List TransferCmd
  recvTransfers : TransferArray
  hostTransfers : TransferArray

def TransferManager.init : TransferManager where
  backlog := []
  clientTransferIds := 1
  cmdQueue := []
  recvTransfers := fun _ => .init .writeFile
  hostTransfers := fun _ => .init .readFile

inductive WorkState where
  | hasWork
  | noWork
  | waitWork
  deriving DecidableEq, Repr

/-- What one `do_work` meets: the files, the clock in nanoseconds before and
after the work, and `fread`. -/
structure WorkEnv where
  files : List UInt8 → Option FileImage
  now : Int
  later : Int
  fread : FRead

/-- What a packet meets on the receiving side: the file it opens or writes to. -/
structure PacketEnv where
  target : WriteTarget
  /-- What `fwrite` returns at most, if less than asked. -/
  fwrite : Option Nat

/-- `path::filename`. -/
def fileNameOf (path : List UInt8) : List UInt8 :=
  (path.reverse.takeWhile (· ≠ 47)).reverse

namespace ActiveTransfer

/-- `zero_transfer`. -/
def zeroed (t : ActiveTransfer) : ActiveTransfer :=
  { t with state := .empty, acceptList := fun _ => .empty, hdr := .zero, localId := 0 }

/-- The first loop of `set_request`. -/
def answered (t : ActiveTransfer) (cId : ClientId) (reply : Bool) : ActiveTransfer :=
  match (List.finRange transferClientsMax).find? fun i => t.hdr.recipients i = cId with
  | none => t
  | some i => { t with
      acceptList := Function.update t.acceptList i (if reply then .accept else .deny) }

/-- The entries the second loop of `set_request` looks at. -/
def listed (t : ActiveTransfer) : List (Fin transferClientsMax) :=
  (List.finRange transferClientsMax).takeWhile fun i => t.hdr.recipients i ≠ 0

def setRequest (t : ActiveTransfer) (cId : ClientId) (reply : Bool) : ActiveTransfer :=
  let t := t.answered cId reply
  if t.listed.all fun i => t.acceptList i = .deny then { t with state := .cancel }
  else if t.listed.all fun i => t.acceptList i ≠ .empty then { t with state := .active }
  else t

end ActiveTransfer

namespace TransferManager

variable (m : TransferManager)

def modifyHost (i : Fin simTransfersMax) (f : ActiveTransfer → ActiveTransfer) : TransferManager :=
  { m with hostTransfers := m.hostTransfers.modify i f }

def modifyRecv (i : Fin simTransfersMax) (f : ActiveTransfer → ActiveTransfer) : TransferManager :=
  { m with recvTransfers := m.recvTransfers.modify i f }

def pushBacklog (state : InfoState) (file : List UInt8) : TransferManager :=
  { m with backlog := m.backlog ++ [⟨state, file⟩] }

/-- `send_cmd`: a queue of eight entries. -/
def sendCmd (cmd : TransferCmd) : Bool × TransferManager :=
  if m.cmdQueue.length < 8 then (true, { m with cmdQueue := m.cmdQueue ++ [cmd] }) else (false, m)

/-- `get_transfer`. -/
def getTransfer (ts : TransferArray) : Option (Fin simTransfersMax) := ts.search (·.state = .empty)

/-- `read_file` may leave a stream open in a slot that stays empty. -/
def cmdHostRequest (env : WorkEnv) (req : Mem cmdRequestSize) : TransferManager :=
  match getTransfer m.hostTransfers with
  | none => m
  | some i =>
    let path := TransferCmd.path req
    let found := env.files path
    let (opened, f) := (m.hostTransfers i).fManager.readFile path found
    if opened then
      { m.modifyHost i fun t => { t with
          fManager := f
          fileSize := f.fileSize.toUInt64.toInt64
          localId := m.clientTransferIds
          hdr := { t.hdr with recipients := TransferCmd.recipients req }
          pastSend := env.now
          file := path
          state := .sendReq } with
        clientTransferIds := m.clientTransferIds + 1 }
    else m.modifyHost i fun t => { t with fManager := f }

def hostRequestValid (req : Packet) (reply : Bool) : TransferManager :=
  match m.hostTransfers.search fun t =>
      t.state = .getResponse ∧ t.localId = req.clientTransferId with
  | none => m
  | some i => m.modifyHost i fun t =>
    if reply then { t with hdr := req.hdr, state := .pending } else { t with state := .cancel }

/-- The bytes of `file_name` up to the first NUL; the string may run on past
the field, and past the packet. -/
def requestFileName (request : Packet) : Option (List UInt8) :=
  let bytes := request.read 80 (packetMaxSize - 80)
  if 0 ∈ bytes then some (cString bytes) else none

def createRecvRequest (request : Packet) (target : WriteTarget) :
    Except Abort (Bool × TransferManager) :=
  match getTransfer m.recvTransfers, requestFileName request with
  | none, _ => .ok (false, m)
  | some _, none => if target.user = none then .ok (false, m) else .error .outOfBounds
  | some i, some name =>
    let (opened, f) := (m.recvTransfers i).fManager.writeFile name request.fileSize target
    if opened then
      .ok (true, m.modifyRecv i fun t => { t with
        fManager := f
        hdr := request.hdr
        file := name
        state := .getResponse })
    else .ok (false, m.modifyRecv i fun t => { t with fManager := f })

/-- The slot a cancel of `tId` means. -/
def cancels (tId : TransferId) (t : ActiveTransfer) : Bool := t.canCancel ∧ tId = t.hdr.tId

def recvCancel (hdr : TransferHdr) : TransferManager :=
  match m.recvTransfers.search (cancels hdr.tId) with
  | some i =>
    (m.modifyRecv i ActiveTransfer.zeroed).pushBacklog .cancelled (m.recvTransfers i).file
  | none => match m.hostTransfers.search (cancels hdr.tId) with
    | some i => m.modifyHost i (·.setRequest hdr.sender false)
    | none => m

def hostRequestReply (tId : TransferId) (cId : ClientId) (reply : Bool) : TransferManager :=
  match m.hostTransfers.search fun t => t.state = .pending ∧ t.hdr.tId = tId with
  | none => m
  | some i => m.modifyHost i (·.setRequest cId reply)

def cmdRecvRequestReply (tId : TransferId) (reply : Bool) : TransferManager :=
  match m.recvTransfers.search fun t => t.state = .getResponse ∧ t.hdr.tId = tId with
  | none => m
  | some i => m.modifyRecv i fun t => { t with state := if reply then .accept else .deny }

def cmdCancel (tId : TransferId) : TransferManager :=
  match m.recvTransfers.search (cancels tId) with
  | some i => m.modifyRecv i fun t => { t with state := .cancel }
  | none => match m.hostTransfers.search (cancels tId) with
    | some i => m.modifyHost i fun t => { t with state := .cancel }
    | none => m

def processCmd (env : WorkEnv) (m : TransferManager) : TransferCmd → TransferManager
  | .request req => m.cmdHostRequest env req
  | .reply tId reply => m.cmdRecvRequestReply tId reply
  | .cancel tId => m.cmdCancel tId

def processCmds (env : WorkEnv) : TransferManager :=
  { m.cmdQueue.foldl (processCmd env) m with cmdQueue := [] }

def recvData (data : Packet) (bytes : Option Nat) : Except Abort TransferManager :=
  match m.recvTransfers.search fun t => t.state = .active ∧ data.tId = t.hdr.tId with
  | none => .ok m
  | some i => do
    let f ← (m.recvTransfers i).fManager.writeWork data bytes
    return m.modifyRecv i fun t => { t with fManager := f }

def recvComplete (tId : TransferId) : TransferManager :=
  match m.recvTransfers.search fun t => t.state = .active ∧ tId = t.hdr.tId with
  | none => m
  | some i =>
    (m.modifyRecv i fun t => { t with fManager := t.fManager.close }.zeroed).pushBacklog .complete
      (m.recvTransfers i).file

/-- The packet of `send_cancel`. -/
def cancelPacket (t : ActiveTransfer) (packet : Packet) : Packet :=
  Packet.setHdr (Packet.packetHdr .transferCancel transferStateSize packet) t.hdr

/-- `send_cancel` on a host slot; the file stays open. -/
def sendCancelHost (i : Fin simTransfersMax) (packet : Packet) : Packet × TransferManager :=
  (cancelPacket (m.hostTransfers i) packet,
    (m.modifyHost i ActiveTransfer.zeroed).pushBacklog .cancelled (m.hostTransfers i).file)

/-- `send_cancel` on a receive slot; the file stays open. -/
def sendCancelRecv (i : Fin simTransfersMax) (packet : Packet) : Packet × TransferManager :=
  (cancelPacket (m.recvTransfers i) packet,
    (m.modifyRecv i ActiveTransfer.zeroed).pushBacklog .cancelled (m.recvTransfers i).file)

/-- The packet of `send_request`; a short name leaves old bytes behind it. -/
def requestPacket (t : ActiveTransfer) (packet : Packet) : Packet :=
  let name := fileNameOf t.file
  let packet := (Packet.packetHdr .transferRequest requestSize packet).storeInt64 72 t.localId
  let packet := packet.write 80 ((name ++ [0]).take fileNameLen)
  let packet := if fileNameLen ≤ name.length + 1 then packet.store 143 1 0 else packet
  Packet.setHdr (packet.store 144 8 t.fileSize.toUInt64.toNat) t.hdr

def sendRequest (i : Fin simTransfersMax) (packet : Packet) : Packet × TransferManager :=
  (requestPacket (m.hostTransfers i) packet,
    m.modifyHost i fun t => { t with state := .getResponse })

/-- Only the header, `accept` and `t_id` are written. -/
def replyPacket (t : ActiveTransfer) (packet : Packet) : Packet :=
  ((Packet.packetHdr .transferReply transferReplySize packet).store 72 1
    (if t.state = .accept then 1 else 0)).storeInt64 8 t.hdr.tId

def sendRecvRequestReply (i : Fin simTransfersMax) (packet : Packet) : Packet × TransferManager :=
  let t := m.recvTransfers i
  (replyPacket t packet,
    if t.state = .accept then m.modifyRecv i fun t => { t with state := .active }
    else (m.modifyRecv i ActiveTransfer.zeroed).pushBacklog .denied t.file)

/-- The packet that ends a transfer: the header and `t_id`. -/
def completePacket (t : ActiveTransfer) (packet : Packet) : Packet :=
  (Packet.packetHdr .transferComplete transferStateSize packet).storeInt64 8 t.hdr.tId

/-- The cases of `send_data`, by what `read_work` returned. -/
def sendRead (i : Fin simTransfersMax) (packet : Packet) : FileState → Packet × TransferManager
  | .working => (packet.storeInt64 8 (m.hostTransfers i).hdr.tId, m)
  | .complete => (completePacket (m.hostTransfers i) packet,
      (m.modifyHost i fun t => { t with fManager := t.fManager.close }.zeroed).pushBacklog
        .complete (m.hostTransfers i).file)
  | .error | .empty => m.sendCancelHost i packet

def sendData (env : WorkEnv) (i : Fin simTransfersMax) (packet : Packet) :
    Except Abort (WorkState × Packet × TransferManager) :=
  if (env.now - (m.hostTransfers i).pastSend).tdiv 1000000 < 1 then .ok (.waitWork, packet, m)
  else do
    let (state, packet, f) ← (m.hostTransfers i).fManager.readWork packet env.fread
    let (packet, m) := (m.modifyHost i fun t => { t with fManager := f }).sendRead i packet state
    return (.hasWork, packet, m.modifyHost i fun t => { t with pastSend := env.later })

/-- A host slot `host_transfer_work` does something for. -/
def hostWorks (t : ActiveTransfer) : Bool :=
  t.state = .active ∨ t.state = .cancel ∨ t.state = .sendReq

def hostTransferWork (env : WorkEnv) (packet : Packet) :
    Except Abort (WorkState × Packet × TransferManager) :=
  match m.hostTransfers.search hostWorks with
  | none => .ok (.noWork, packet, m)
  | some i => match (m.hostTransfers i).state with
    | .active => m.sendData env i packet
    | .cancel => .ok (.hasWork, m.sendCancelHost i packet)
    | _ => .ok (.hasWork, m.sendRequest i packet)

/-- A receive slot `recv_transfer_work` does something for. -/
def recvWorks (t : ActiveTransfer) : Bool :=
  t.state = .cancel ∨ t.state = .accept ∨ t.state = .deny

def recvTransferWork (packet : Packet) : WorkState × Packet × TransferManager :=
  match m.recvTransfers.search recvWorks with
  | none => (.noWork, packet, m)
  | some i => match (m.recvTransfers i).state with
    | .cancel => (.hasWork, m.sendCancelRecv i packet)
    | _ => (.hasWork, m.sendRecvRequestReply i packet)

def doWork (env : WorkEnv) (packet : Packet) : Except Abort (WorkState × Packet × TransferManager) := do
  let m := m.processCmds env
  let (host, packet, m) ← m.hostTransferWork env packet
  if host = .noWork then return m.recvTransferWork packet
  else return (host, packet, m)

/-- The packets `analize` hands to `Transfer_Manager`. -/
def handle (env : PacketEnv) (p : Packet) : Except Abort TransferManager :=
  match p.type? with
  | some .transferRequest => do
    let (created, m) ← m.createRecvRequest p env.target
    if created then return m else .error .request
  | some .transferValid => .ok (m.hostRequestValid p true)
  | some .transferInvalid => .ok (m.hostRequestValid p false)
  | some .transferCancel => .ok (m.recvCancel p.hdr)
  | some .transferReply => .ok (m.hostRequestReply p.tId p.hdrFrom (p.replyAccept ≠ 0))
  | some .transferData => m.recvData p env.fwrite
  | some .transferComplete => .ok (m.recvComplete p.tId)
  | _ => .ok m

end TransferManager

end Quickshare
