import Quickshare.Server.NetWrite
import Quickshare.Lib.Runs

/-! `net_read.c`, `accept_client` and the events of `server_loop`. -/

namespace Quickshare

open Bytes

/-- Bytes asked of `SSL_read`: a `size_t` difference passed as an `int`. -/
def Buffer.wanted (b : Buffer packetMaxSize) : Int :=
  Int.bmod ((hdrSize + b.size : Nat) - (b.len : Nat) : Int) (2 ^ 32)

/-- What both copies of the reassembly loop do with the bytes of one
`SSL_read`: the new buffer and whether it holds a whole packet, or `none` when
the bytes reached past the buffer. -/
def Buffer.receive (b : Buffer packetMaxSize) (chunk : List UInt8) :
    Option (Bool × Buffer packetMaxSize) :=
  if packetMaxSize < b.len + chunk.length then none
  else
    let data := b.data.write b.len chunk
    let len := b.len + chunk.length
    let size := if len = hdrSize then Packet.size data else b.size
    some (len = size + hdrSize, ⟨data, len, size⟩)

/-- The packet of `c` is recorded as passed to `analize_packet`. -/
def Server.called (s : Server) (c : Slot) : Server :=
  { s with calls := s.calls ++ [(c, (s.client c).decryptBuf.packet)] }

/-- One turn of the loop in `decrypt_data`. -/
def decryptData (s : Server) (c : Slot) (chunk : List UInt8) : Run Server :=
  match (s.client c).decryptBuf.receive chunk with
  | none => .error (.outOfBounds, s)
  | some (whole, buf) => do
    let s := s.modify c fun client => { client with decryptBuf := buf }
    if whole then
      let s ← analizePacket (s.called c) c
      return s.modify c fun client =>
        { client with decryptBuf := { client.decryptBuf with len := 0, size := 0 } }
    else return s

/-- What one pass of `accept_client` meets: the descriptor, the clock, the TLS
object and the results of both `epoll_ctl` calls. -/
structure Connection where
  fd : Int
  now : ClientId
  ssl : Ssl
  added : Bool
  deleted : Bool

/-- One pass of the loop in `accept_client`; `false` when it returns. -/
def acceptOne (s : Server) (conn : Connection) : Run (Bool × Server) :=
  let s := { s with openFds := conn.fd :: s.openFds }
  match clientInit s.clients conn.now conn.ssl with
  | none => do
    let s ← closeClient s conn.fd conn.deleted
    return (false, s)
  | some (i, clients) =>
    match epollAdd { s with clients } conn.fd conn.added with
    | (false, s) => do
      let s ← closeClient s conn.fd conn.deleted
      return (false, s)
    | (true, s) => .ok (true, s.modify i fun c => { c with fd := conn.fd })

/-- The connections waiting are taken until one is rejected. -/
def acceptClient (s : Server) : List Connection → Run Server
  | [] => .ok s
  | conn :: rest => do
    let (more, s) ← acceptOne s conn
    if more then acceptClient s rest else return s

inductive Event where
  /-- One connection taken by `accept_client`. -/
  | accept (conn : Connection)
  /-- `SSL_do_handshake` finished. -/
  | handshake (fd : Int)
  /-- `ssl_want_more` moved these bytes out of the write BIO. -/
  | wantMore (fd : Int) (bytes : List UInt8)
  /-- One `SSL_read` in `decrypt_data` returned these bytes. -/
  | recv (fd : Int) (chunk : List UInt8)
  /-- The socket is writable. -/
  | write (fd : Int) (env : WriteEnv)
  /-- The peer hung up, or reading or TLS failed. -/
  | close (fd : Int) (deleted : Bool)

/-- TLS is up once `SSL_is_init_finished`. -/
def Client.secured (c : Client) : Bool := c.state = .secure ∨ c.state = .complete

/-- `read_data` up to a result of `SSL_read`, which returns between one and the
wanted number of bytes. -/
def readData (s : Server) (fd : Int) (chunk : List UInt8) : Run Server :=
  match clientFind s.clients fd with
  | none => .error (.client, s)
  | some c =>
    if (s.client c).secured ∧ 0 < chunk.length ∧
        (chunk.length : Int) ≤ (s.client c).decryptBuf.wanted then
      decryptData s c chunk
    else .ok s

def completeHandshake (s : Server) (fd : Int) : Server :=
  match clientFind s.clients fd with
  | none => s
  | some c =>
    if (s.client c).state = .connected then s.modify c fun client => { client with state := .secure }
    else s

def sslWantMore (s : Server) (fd : Int) (bytes : List UInt8) : Run Server :=
  match clientFind s.clients fd with
  | none => .ok s
  | some c => match (bioPieces bytes.length bytes).foldlM secureQueueWrite (s.client c) with
    | .error fault => .error (fault, s)
    | .ok client => .ok (s.modify c fun _ => client)

/-- What `server_loop` does on one event. `accept4` returns a descriptor not in use. -/
def step (s : Server) : Event → Run Server
  | .accept conn =>
    if conn.fd ∈ s.openFds ∨ conn.fd ∈ s.epoll then .ok s
    else do
      let (_, s) ← acceptOne s conn
      return s
  | .handshake fd => .ok (completeHandshake s fd)
  | .wantMore fd bytes => sslWantMore s fd bytes
  | .recv fd chunk => readData s fd chunk
  | .write fd env => writeData s fd env
  | .close fd deleted => closeClient s fd deleted

/-! Packets as a peer sends them -/

/-- A packet that arrives in two reads, header and body. -/
def packetFrom (fd : Int) (type : PacketType) (body : List UInt8) : List Event :=
  [.recv fd (toLE 4 type.code ++ toLE 4 body.length), .recv fd body]

/-- A connection whose handshake is done. -/
def connects (fd : Int) (now : ClientId) : List Event :=
  [.accept ⟨fd, now, .plain, true, true⟩, .handshake fd]

/-- Create (1) or join (0) the session named `a`. -/
def introBody (creates : Nat) : List UInt8 :=
  List.replicate pcNameMaxLen 97 ++ 97 :: List.replicate (sessionIdMaxLen - 1) 0 ++ toLE 8 creates

/-- Ask to send a file to one client. -/
def requestBody (recipient : Nat) : List UInt8 :=
  toLE 8 0 ++ toLE 8 0 ++ toLE 8 recipient ++ List.replicate (requestSize - 24) 0

/-- A cancel, a completion or, with no answer, a reply. -/
def stateBody (tId : Nat) : List UInt8 := toLE 8 tId ++ List.replicate (transferStateSize - 8) 0

/-- Accept a transfer. -/
def acceptBody (tId : Nat) : List UInt8 := stateBody tId ++ [1]

end Quickshare
