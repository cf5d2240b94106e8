import Quickshare.Server.NetClose

/-! `net_write.c` and `secure_queue_write`. What `write`, `SSL_write` and
`BIO_read` return is a schedule consumed call by call; an exhausted schedule
blocks the socket and lets TLS take everything. -/

namespace Quickshare

/-- One `write()`. -/
inductive SysWrite where
  | wrote (n : Nat)
  | wouldBlock
  | failed
  deriving DecidableEq, Repr

/-- One `SSL_write`, and after how many pieces `BIO_read` then fails hard. -/
inductive SslWrite where
  | wrote (n : Nat) (bio : Option Nat)
  | moreIo
  | failed
  deriving DecidableEq, Repr

inductive WriteResult where
  | error
  | ok
  | block
  deriving DecidableEq, Repr

structure WriteEnv where
  writes : List SysWrite
  ssl : List SslWrite
  /-- Whether `EPOLL_CTL_DEL` works when the client has to be closed. -/
  deleted : Bool

def Client.acted (c : Client) (act : WriteAct) : Client :=
  { c with secure := { c.secure with acts := c.secure.acts ++ [act] } }

/-- `write` took `n` bytes: `memmove` of the rest to the front. -/
def Client.written (c : Client) (n : Nat) : Client :=
  let buf := c.secure.encryptedBuf
  { c with secure := { c.secure with
      wire := c.secure.wire ++ buf.data.read 0 n
      encryptedBuf := { buf with
        data := buf.data.write 0 (buf.data.read n (buf.len - n))
        len := buf.len - n } } }

def writeBytes : List SysWrite → Client → WriteResult × Client × List SysWrite
  | [], c => if c.secure.encryptedBuf.len = 0 then (.ok, c, []) else (.block, c.acted .write, [])
  | result :: rest, c =>
    if c.secure.encryptedBuf.len = 0 then (.ok, c, result :: rest)
    else match result with
      | .wouldBlock => (.block, c.acted .write, rest)
      | .failed => (.error, c.acted .write, rest)
      | .wrote n =>
        if n = 0 then (.error, c.acted .write, rest)
        else writeBytes rest ((c.acted .write).written (min n c.secure.encryptedBuf.len))

def secureQueueWrite (c : Client) (bytes : List UInt8) : Except Fault Client :=
  let buf := c.secure.encryptedBuf
  if buf.len + bytes.length < 2 * packetMaxSize then
    .ok { c with secure := { c.secure with
      encryptedBuf := { buf with
        data := buf.data.write buf.len bytes
        len := buf.len + bytes.length } } }
  else .error .space

/-- The pieces `BIO_read` returns through its 64-byte buffer. -/
def bioPieces : Nat → List UInt8 → List (List UInt8)
  | 0, _ => []
  | fuel + 1, bytes =>
    if bytes = [] then [] else bytes.take 64 :: bioPieces fuel (bytes.drop 64)

/-- Move one record from the write BIO to `encrypted_buf`. -/
def drainBio (c : Client) (record : List UInt8) : Option Nat → Except Fault (Bool × Client)
  | none => do
    let c ← (bioPieces record.length record).foldlM secureQueueWrite c
    return (true, c)
  | some stop => do
    let c ← ((bioPieces record.length record).take stop).foldlM secureQueueWrite c
    return (false, c)

/-- One `SSL_write` that takes `plain`, with the drain after it. -/
def sslWrote (c : Client) (plain : List UInt8) (bio : Option Nat) : Except Fault (Bool × Client) :=
  match c.secure.ssl with
  | none => .error .freed
  | some ssl =>
    drainBio { c with secure := { c.secure with
        ssl := some { ssl with sealed := ssl.sealed ++ [plain] } } }
      (ssl.record ssl.sealed.length plain) bio

/-- The loop of `encrypt` over the bytes left. -/
def encryptLoop : List SslWrite → List UInt8 → Client →
    Except Fault (Bool × Client × List SslWrite)
  | [], data, c =>
    if data = [] then .ok (true, c, [])
    else do
      let (_, c) ← sslWrote c data none
      return (true, c, [])
  | result :: rest, data, c =>
    if data = [] then .ok (true, c, result :: rest)
    else match result with
      | .moreIo => .error .moreIo
      | .failed => if c.secure.ssl.isNone then .error .freed else .ok (false, c, rest)
      | .wrote n bio =>
        if n = 0 then .ok (false, c, rest)
        else do
          let (drained, c) ← sslWrote c (data.take n) bio
          if drained then encryptLoop rest (data.drop n) c else return (false, c, rest)

/-- `size_t size = sizeof(Packet_Hdr) + p->hdr.size` bytes from the packet on. -/
def encrypt (p : Packet) (c : Client) (ssl : List SslWrite) :
    Except Fault (Bool × Client × List SslWrite) :=
  if packetMaxSize < hdrSize + p.size then .error .outOfBounds
  else encryptLoop ssl p.wire (c.acted .encrypt)

/-- A fault inside a client-level function stops the server. -/
def Server.lift (s : Server) (i : Slot) : Except Fault (Bool × Client × Rest) →
    Run (Bool × Rest × Server)
  | .error fault => .error (fault, s)
  | .ok (done, c, rest) => .ok (done, rest, s.modify i fun _ => c)

/-- `close_client` called from `write_data`. -/
def writeClose (s : Server) (i : Slot) (fd : Int) (deleted : Bool) : Run Server :=
  closeClient (s.modify i fun c => c.acted .close) fd deleted

/-- Take one packet off the queue and seal it; a failure closes the client and
goes on. -/
def encryptNext (s : Server) (i : Slot) (fd : Int) (env : WriteEnv) : Run (WriteEnv × Server) :=
  match (s.client i).msgQueue.dequeue with
  | none => .ok (env, s)
  | some (packet, q) => do
    let s := s.modify i fun c => { c.acted .dequeue with msgQueue := q }
    let (done, ssl, s) ← s.lift i (encrypt packet (s.client i) env.ssl)
    let env := { env with ssl }
    if done then return (env, s)
    else do
      let s ← writeClose s i fd env.deleted
      return (env, s)

/-- The `do`-`while` loop of `write_data`; every turn but the last dequeues. -/
def writeLoop : Nat → Server → Slot → Int → WriteResult → WriteEnv → Run Server
  | 0, s, _, _, _, _ => .ok s
  | fuel + 1, s, i, fd, state, env =>
    let (state, c, writes) :=
      if (s.client i).secure.encryptedBuf.len > 0 then writeBytes env.writes (s.client i)
      else (state, s.client i, env.writes)
    let s := s.modify i fun _ => c
    if state = .error then writeClose s i fd env.deleted
    else do
      let (env, s) ← encryptNext s i fd { env with writes }
      if state ≠ .block ∧ (s.client i).secure.encryptedBuf.len > 0 then
        writeLoop fuel s i fd state env
      else return s

def writeData (s : Server) (fd : Int) (env : WriteEnv) : Run Server :=
  match clientFind s.clients fd with
  | none => .ok s
  | some i => writeLoop ((s.client i).msgQueue.count + 1) s i fd .ok env

end Quickshare
