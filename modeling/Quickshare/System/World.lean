import Quickshare.Client.Emissions
import Quickshare.Client.Network
import Quickshare.Server.Membership

/-! The server with the clients connected to it, each a process that runs a
`Transfer_Manager`. A packet arrives whole and in order, or not at all: what is in
queues, buffers and sockets between two parties is one list of packets. -/

namespace Quickshare

open Runs

/-- A packet on its way. `source` is what its sender had still to send of its file
when the packet, or the one that it answers, was made (kept for specifications). -/
structure Parcel where
  packet : Packet
  source : List UInt8

/-- What a file is still to give: the rest of the block at hand, then what is unread. -/
def FileManager.remaining (f : FileManager) : List UInt8 :=
  (f.buf.drop f.bufCnt).take f.bufLen ++ (f.fileFd.map Stream.unread).getD []

/-- What has gone into a file. -/
def FileManager.stored (f : FileManager) : List UInt8 := (f.fileFd.map Stream.written).getD []

structure World where
  server : Server
  /-- The connections accepted so far, each of a client process of its own. -/
  joined : Nat
  /-- The process connected to each slot. -/
  seat : Slot → Nat
  /-- The id each process was given. -/
  ids : Nat → ClientId
  managers : Nat → TransferManager
  /-- The packets on their way to and from the server, oldest first. -/
  up : Nat → List Parcel
  down : Nat → List Parcel
  /-- The file each process was offered (kept for specifications). -/
  offered : Nat → TransferId → List UInt8

namespace World

/-- The server before its first connection. -/
def init (db : Database) : World where
  server := Server.init db
  joined := 0
  seat := fun _ => 0
  ids := fun _ => 0
  managers := fun _ => .init
  up := fun _ => []
  down := fun _ => []
  offered := fun _ _ => []

inductive Event where
  /-- What `server_loop` does on one event. -/
  | server (e : Quickshare.Event)
  /-- The introduction a client queued is sent; `old` is what the buffer held. -/
  | intro (n : Nat) (session : Session) (old : Packet)
  /-- The user queues a command. -/
  | cmd (n : Nat) (cmd : TransferCmd)
  /-- `do_work`; a packet it makes is sent. -/
  | work (n : Nat) (env : WorkEnv) (old : Packet)
  /-- The next packet of the server has arrived as `p`. -/
  | packet (n : Nat) (env : PacketEnv) (p : Packet)

variable (w : World)

/-- The slot of a process that is connected. -/
def slot (n : Nat) : Option Slot :=
  (List.finRange maxClients).find? fun i => w.server.Live i ∧ w.seat i = n

/-- The slot that a connection was taken into. -/
def newcomer (s : Server) : Option Slot :=
  (List.finRange maxClients).find? fun i => ¬ w.server.Live i ∧ s.Live i

/-- What the server has sent to a process; to a client it closes it sends nothing more. -/
def posted (s : Server) (source : List UInt8) (n : Nat) : List Parcel :=
  match w.slot n with
  | none => []
  | some i => if s.Live i then (w.server.arrived s i).map (⟨·, source⟩) else []

/-- The server has become `s`. -/
def served (s : Server) (source : List UInt8) : World :=
  let w' := { w with server := s, down := fun n => w.down n ++ w.posted s source n }
  match w.newcomer s with
  | none => w'
  | some i => { w' with
      joined := w.joined + 1
      seat := Function.update w.seat i w.joined
      ids := Function.update w.ids w.joined (s.client i).id }

/-- A packet that a read completes is the next of its client. -/
def serve (e : Quickshare.Event) : Except Fault World :=
  match w.server.delivers e with
  | none => match Quickshare.step w.server e with
    | .error (fault, _) => .error fault
    | .ok s => .ok (w.served s [])
  | some (c, t) => match w.up (w.seat c) with
    | [] => .ok w
    | parcel :: rest =>
      if (t.client c).decryptBuf.packet.wire = parcel.packet.wire then
        match Quickshare.step w.server e with
        | .error (fault, _) => .error fault
        | .ok s => .ok { w.served s parcel.source with up := Function.update w.up (w.seat c) rest }
      else .ok w

/-- A process puts a packet into its channel. -/
def push (n : Nat) (parcel : Parcel) : World :=
  { w with up := Function.update w.up n (w.up n ++ [parcel]) }

/-- The file a packet that `do_work` makes is about. -/
def emitted (n : Nat) (env : WorkEnv) (old : Packet) : List Parcel :=
  let m := w.managers n
  (m.emission (.work env old)).toList.map fun e =>
    ⟨e.2, ((m.processCmds env).slot e.1).fManager.remaining⟩

def work (n : Nat) (env : WorkEnv) (old : Packet) : World :=
  match (w.managers n).step (.work env old) with
  | .error _ => w
  | .ok m => { w with
      managers := Function.update w.managers n m
      up := Function.update w.up n (w.up n ++ w.emitted n env old) }

def receive (n : Nat) (env : PacketEnv) (p : Packet) : World :=
  match w.down n with
  | [] => w
  | parcel :: rest =>
    if p.wire = parcel.packet.wire then
      match (w.managers n).step (.packet env p) with
      | .error _ => w
      | .ok m => { w with
          managers := Function.update w.managers n m
          down := Function.update w.down n rest
          offered := if p.type? = some .transferRequest
            then Function.update w.offered n (Function.update (w.offered n) p.tId parcel.source)
            else w.offered }
    else w

/-- The server stops at a fault; a client that aborts does nothing more. -/
def step (w : World) : Event → Except Fault World
  | .server e => w.serve e
  | .intro n session old =>
    .ok (if n < w.joined then w.push n ⟨session.toPacket old, []⟩ else w)
  | .cmd n cmd => .ok (if n < w.joined then
      { w with managers := Function.update w.managers n ((w.managers n).sendCmd cmd).2 } else w)
  | .work n env old => .ok (if n < w.joined then w.work n env old else w)
  | .packet n env p => .ok (if n < w.joined then w.receive n env p else w)

end World

end Quickshare
