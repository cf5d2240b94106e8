import Quickshare.Client.TransferManager
import Quickshare.Server.Network

/-! `network.cpp` and `users.cpp`: the loop that reads packets of the server
and writes those of `Transfer_Manager` and of the session dialogue. -/

namespace Quickshare

open Bytes

/-- `User`. -/
structure User where
  name : List UInt8
  id : ClientId
  deriving DecidableEq

/-- `add_users`: `users_len` entries, however many there are room for. -/
def addUsers (users : List User) (p : Packet) : List User :=
  users ++ (List.range p.newUsersLen).map fun i => ⟨p.newUsersName i, p.newUsersId i⟩

/-- `remove_user`: the first user with the id goes. -/
def removeUser (users : List User) (p : Packet) : List User :=
  users.eraseP (·.id = p.delUserId)

/-- `Network::State`. -/
inductive NetState where
  | uninitialized
  | initError
  | netError
  | opened
  | connected
  | sessionError
  | sessionSuccess
  deriving DecidableEq, Repr

/-- `Session`: a name and a session id of 16 bytes, and whether to create it. -/
structure Session where
  name : List UInt8
  sId : List UInt8
  opt : Bool
  deriving DecidableEq

/-- `safe_strcpy` of a field of `size` bytes. -/
def safeStrcpy (src : List UInt8) (size : Nat) : List UInt8 := src.take (size - 1) ++ [0]

def Session.new (name sId : List UInt8) (opt : Bool) : Session :=
  ⟨safeStrcpy name pcNameMaxLen, safeStrcpy sId sessionIdMaxLen, opt⟩

def Session.toPacket (session : Session) (packet : Packet) : Packet :=
  (((Packet.packetHdr .clientIntro introSize packet).write 24
    (safeStrcpy session.sId sessionIdMaxLen)).write 8
    (safeStrcpy session.name pcNameMaxLen)).store 40 8 (if session.opt then 1 else 0)

/-- One call of `SSL_write`: how many packets had been produced, where its bytes
start in the last of them, and the bytes that were taken. -/
structure SslCall where
  serial : Nat
  offset : Nat
  bytes : List UInt8
  deriving DecidableEq

/-- What `SSL_write` takes of the bytes it is given. -/
inductive SslTaken where
  | some (n : Nat)
  | whole
  | failed
  deriving DecidableEq, Repr

/-- `Packet_Buf` is the server's `Buffer` of one packet. -/
structure Network where
  state : NetState
  rbuf : Buffer packetMaxSize
  wbuf : Buffer packetMaxSize
  msgQueue : List Session
  /-- Whether `EVENT_WRITE` is asked of `poll`. -/
  eventWrite : Bool
  manager : TransferManager
  users : List User
  /-- The packets produced so far, as the bytes to send (kept for specifications). -/
  produced : List (List UInt8)
  /-- What `SSL_write` took so far (kept for specifications). -/
  written : List SslCall
  /-- Every packet passed to `analize` so far, oldest first (kept for specifications). -/
  calls : List Packet

/-- The network when `handle` starts: `session` has queued the message it was
started for. -/
def Network.init (msg : Session) : Network where
  state := .connected
  rbuf := ⟨Mem.zero packetMaxSize, 0, 0⟩
  wbuf := ⟨Mem.zero packetMaxSize, 0, 0⟩
  msgQueue := [msg]
  eventWrite := false
  manager := .init
  users := []
  produced := []
  written := []
  calls := []

/-- What one `SSL_read` of the client returns, and whether `SSL_pending` then
says that the loop goes on. -/
inductive SslRead where
  | bytes (chunk : List UInt8) (pending : Bool)
  | wantMore
  | gone
  | other (pending : Bool)

/-- `poll` fails, or reports these events; `EVENT_WRITE` only where asked for. -/
inductive Poll where
  | failed
  | ready (error readable writable : Bool)
  deriving DecidableEq, Repr

/-- What one turn of the loop in `handle` meets. -/
structure Turn where
  work : WorkEnv
  poll : Poll
  reads : List SslRead
  packets : PacketEnv
  sslWrite : SslTaken

namespace Network

variable (n : Network)

/-- `Network::session` once the network has been started. -/
def session (name sId : List UInt8) (opt : Bool) : Network :=
  if n.state = .sessionError then
    { n with msgQueue := n.msgQueue ++ [Session.new name sId opt], state := .connected }
  else n

/-- The packet in `wbuf` is ready to be written from its start. -/
def produce (packet : Packet) : Network :=
  { n with
    wbuf := ⟨packet, 0, (packet.size + hdrSize) % 2 ^ 32⟩
    produced := n.produced ++ [packet.wire] }

def convertMsg (env : WorkEnv) : Except Abort (Bool × Network) := do
  let (work, packet, manager) ← n.manager.doWork env n.wbuf.data
  let n := { n with manager, wbuf := { n.wbuf with data := packet } }
  match work, n.msgQueue with
  | .noWork, [] => return (false, n)
  | .noWork, msg :: rest => return (true, { n with msgQueue := rest }.produce (msg.toPacket packet))
  | .waitWork, _ => return (true, { n with wbuf := { n.wbuf with len := 0, size := 0 } })
  | .hasWork, _ => return (true, n.produce packet)

/-- `SSL_write` took `nbytes`. `wbuf.packet + wbuf.len` counts whole packets of
1440 bytes. -/
def wrote (nbytes : Nat) : Network :=
  let offset := packetMaxSize * n.wbuf.len
  let call := ⟨n.produced.length, offset, n.wbuf.data.read offset nbytes⟩
  let len := n.wbuf.len + nbytes
  { n with
    written := n.written ++ [call]
    wbuf := if len = n.wbuf.size then { n.wbuf with len := 0, size := 0 } else { n.wbuf with len } }

def writeData (result : SslTaken) : Except Abort Network :=
  let asked := n.wbuf.size - n.wbuf.len
  if asked = 0 then .ok n
  else match result with
    | .failed | .some 0 => .error .sslWrite
    | .some nbytes => .ok (n.wrote (min nbytes asked))
    | .whole => .ok (n.wrote asked)

def serverResponse : Network :=
  { n with state := if n.rbuf.packet.type? = some .serverOk then .sessionSuccess else .sessionError }

def updateUsers : Network :=
  { n with users :=
    if n.rbuf.packet.type? = some .serverNewUsers then addUsers n.users n.rbuf.packet
    else removeUser n.users n.rbuf.packet }

def analize (env : PacketEnv) : Except Abort Network :=
  match n.rbuf.packet.type? with
  | some .serverOk | some .serverDeny => .ok n.serverResponse
  | some .serverNewUsers | some .serverDelUsers => .ok n.updateUsers
  | _ => do
    let manager ← n.manager.handle env n.rbuf.packet
    return { n with manager }

/-- The packet read is recorded as passed to `analize`. -/
def called : Network := { n with calls := n.calls ++ [n.rbuf.packet] }

/-- A result of `SSL_read`, which returns between one and the wanted number of bytes. -/
def readBytes (env : PacketEnv) (chunk : List UInt8) : Except Abort Network :=
  if 0 < chunk.length ∧ (chunk.length : Int) ≤ n.rbuf.wanted then
    match n.rbuf.receive chunk with
    | none => .error .outOfBounds
    | some (whole, rbuf) =>
      if whole then do
        let n ← { n with rbuf }.called.analize env
        return { n with rbuf := { n.rbuf with len := 0, size := 0 } }
      else .ok { n with rbuf }
  else .ok n

/-- One call of `read_data`; the loop ends when nothing is pending. -/
def readData (env : PacketEnv) (n : Network) : List SslRead → Except Abort Network
  | [] | .wantMore :: _ => .ok n
  | .gone :: _ => .error .disconnect
  | .other pending :: rest => if pending then readData env n rest else .ok n
  | .bytes chunk pending :: rest => do
    let n ← n.readBytes env chunk
    if pending then readData env n rest else return n

def checkWrite (env : WorkEnv) : Except Abort Network := do
  let n := { n with eventWrite := false }
  if n.wbuf.len = 0 then
    let (converted, n) ← n.convertMsg env
    return { n with eventWrite := converted }
  else return n

/-- One turn of the loop in `handle`; `false` when it returns. -/
def handle (turn : Turn) : Except Abort (Bool × Network) := do
  let n ← n.checkWrite turn.work
  match turn.poll with
  | .failed | .ready true _ _ => return (false, { n with state := .netError })
  | .ready false readable writable =>
    let n ← (if readable then readData turn.packets n turn.reads else .ok n)
    let n ← (if writable ∧ n.eventWrite then n.writeData turn.sslWrite else .ok n)
    return (true, n)

end Network

end Quickshare
