import Quickshare.Server.Client

/-! `server.h` and the senders of `network.c`. A handler that fails an
assertion or leaves a buffer stops the process, which a `Fault` records with
the state at that point. -/

namespace Quickshare

open Bytes

inductive Fault where
  /-- `assert(packet)`, `assert(response)`: no free slot in a message queue. -/
  | packet
  /-- `assert(creator)` in `packet_reply`. -/
  | creator
  /-- `assert(r)` in `echo_transfer_request`. -/
  | recipient
  /-- `assert(client)` in `read_data`. -/
  | client
  /-- The assertion of `secure_queue_write`. -/
  | space
  /-- `assert(state != STATUS_MORE_IO)` in `encrypt`. -/
  | moreIo
  /-- An access outside an allocated buffer. -/
  | outOfBounds
  /-- Use of a freed TLS object. -/
  | freed
  deriving DecidableEq, Repr

/-- The faults of packet handlers; reading, sealing and writing have the others. -/
def Fault.ofHandler : Fault → Bool
  | .packet | .creator | .recipient => true
  | _ => false

/-- One enqueued packet: its receiver, with the state and session of every
client at that moment. -/
structure Sent where
  recipient : Slot
  sessions : Slot → ClientState × SessionId

structure Server where
  clients : ClientList
  db : Database
  /-- The descriptors registered with epoll. -/
  epoll : List Int
  openFds : List Int
  /-- Every packet enqueued so far, oldest first (kept for specifications). -/
  sent : List Sent
  /-- The ids of the transfers committed so far (kept for specifications). -/
  committed : List TransferId
  /-- Every packet passed to `analize_packet` so far, with its client, oldest first
  (kept for specifications). -/
  calls : List (Slot × Packet)

abbrev Run := Except (Fault × Server)

/-- What stopped the process, if anything did. -/
def Run.fault? {Result : Type} : Run Result → Option Fault
  | .ok _ => none
  | .error (fault, _) => some fault

theorem Run.fault?_eq_some {Result : Type} {r : Run Result} (stopped : r.fault? = some fault) :
    ∃ s, r = .error (fault, s) := by
  cases r with
  | ok x => cases stopped
  | error failed =>
    cases stopped
    exact ⟨failed.2, rfl⟩

theorem Run.fault?_eq_none {Result : Type} {r : Run Result} (going : r.fault? = none) :
    ∃ x, r = .ok x := by
  cases r with
  | ok x => exact ⟨x, rfl⟩
  | error failed => cases going

/-- Whether the process goes on with a result that passes `check`. -/
def Run.passes {Result : Type} (check : Result → Bool) : Run Result → Bool
  | .ok x => check x
  | .error _ => false

theorem Run.passes_ok {Result : Type} {check : Result → Bool} {r : Run Result}
    (passed : r.passes check = true) : ∃ x, r = .ok x ∧ check x = true := by
  cases r with
  | ok x => exact ⟨x, rfl, passed⟩
  | error failed => cases passed

/-- The server when `server_loop` starts. -/
def Server.init (db : Database) : Server where
  clients := clientListInit
  db := db
  epoll := []
  openFds := []
  sent := []
  committed := []
  calls := []

namespace Server

def client (s : Server) (i : Slot) : Client := s.clients.list i

def sessions (s : Server) (i : Slot) : ClientState × SessionId :=
  ((s.client i).state, (s.client i).sessionId)

def modify (s : Server) (i : Slot) (f : Client → Client) : Server :=
  { s with clients := s.clients.modify i f }

theorem client_modify_self (s : Server) (i : Slot) (f : Client → Client) :
    (s.modify i f).client i = f (s.client i) :=
  s.clients.modify_self i f

theorem client_modify_of_ne (s : Server) (f : Client → Client) (other : j ≠ i) :
    (s.modify i f).client j = s.client j :=
  s.clients.modify_of_ne f other

/-- `enqueue` on a client's queue with the assertion every caller makes. -/
def enqueue (s : Server) (r : Slot) : Run (Nat × Server) :=
  match (s.client r).msgQueue.enqueue with
  | none => .error (.packet, s)
  | some (slot, q) => .ok (slot,
      { s.modify r fun c => { c with msgQueue := q } with sent := s.sent ++ [⟨r, s.sessions⟩] })

def fill (s : Server) (r : Slot) (slot : Nat) (f : Packet → Packet) : Server :=
  s.modify r fun c => { c with msgQueue := c.msgQueue.fill slot f }

/-- Take a slot of `r`'s queue and fill it; `f` gets its old contents. -/
def send (s : Server) (r : Slot) (f : Packet → Packet) : Run Server := do
  let (slot, s) ← s.enqueue r
  return s.fill r slot f

end Server

/-- `new_client_event` with `EPOLL_CTL_ADD`; `done` is what the call would do. -/
def epollAdd (s : Server) (fd : Int) (done : Bool) : Bool × Server :=
  if done ∧ fd ∉ s.epoll then (true, { s with epoll := fd :: s.epoll }) else (false, s)

/-- `new_client_event` with `EPOLL_CTL_DEL`, which fails on an unknown descriptor. -/
def epollDel (s : Server) (fd : Int) (done : Bool) : Bool × Server :=
  if done ∧ fd ∈ s.epoll then (true, { s with epoll := s.epoll.erase fd }) else (false, s)

/-- The packet `send_single_user` builds in a cleared slot. -/
def singleUserPacket (c1 : Client) (type : PacketType) : Packet :=
  match type with
  | .serverNewUsers =>
    (((Packet.packetHdr type newUsersSize (Mem.zero packetMaxSize)).store 776 1 1).storeInt64
      520 c1.id).write 8 c1.name
  | _ =>
    ((Packet.packetHdr type delUserSize (Mem.zero packetMaxSize)).storeInt64 24 c1.id).write
      8 c1.name

def sendSingleUser (s : Server) (recp c1 : Slot) (type : PacketType) : Run Server :=
  s.send recp fun _ => singleUserPacket (s.client c1) type

/-- Only the header, `t_id` and `from` are written; `to` keeps old bytes. -/
def sendTransferState (s : Server) (c : Slot) (sender : ClientId) (tId : TransferId)
    (type : PacketType) : Run Server :=
  s.send c fun old =>
    ((Packet.packetHdr type transferStateSize old).storeInt64 8 tId).storeInt64 16 sender

end Quickshare
