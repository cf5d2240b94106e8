import Mathlib.Data.List.Basic
import Mathlib.Logic.Function.Basic
import Mathlib.Logic.Relation
import Mathlib.Tactic.Common

/-! A file that one client of a server sends to others through it. The server keeps a
row for each recipient, asks them, tells the owner who has answered and then forwards
the file to those that accepted. Channels lose and reorder nothing; a side may forget
its part of the file at any time. -/

namespace Quickshare.Relay

open Function

universe u v w

/-- What the server has recorded of a client's answer. -/
inductive Row where
  | none
  | asked
  | denied
  | accepted
  deriving DecidableEq

/-- The owner's part: what it still has to send, and whose answers it waits for. -/
structure Host (Id : Type v) (Byte : Type w) where
  active : Bool
  rest : List Byte
  waits : Id → Bool

/-- A recipient's part: the file it was offered and what it has stored. -/
structure Recv (Byte : Type w) where
  /-- It has not answered yet. -/
  early : Bool
  source : List Byte
  written : List Byte

/-- Messages to the server. -/
inductive Up (Byte : Type w) where
  | data (bytes : List Byte)
  | complete
  | reply (accept : Bool)

/-- Messages of the server. -/
inductive Down (Id : Type v) (Byte : Type w) where
  | request (source : List Byte)
  /-- The owner's file has been offered to `asked`. -/
  | valid (source : List Byte) (asked : Id → Bool)
  /-- There is nothing more to wait for from this client. -/
  | answer (i : Id)
  | data (bytes : List Byte)
  | complete

/-- What one client knows of the file, and what is on its way from and to it. -/
structure Party (Id : Type v) (Byte : Type w) where
  host : Option (Host Id Byte)
  recv : Option (Recv Byte)
  up : List (Up Byte)
  down : List (Down Id Byte)

/-- All that is about one file. -/
structure Exchange (Client : Type u) (Id : Type v) (Byte : Type w) where
  live : Client → Bool
  name : Client → Id
  row : Client → Row
  side : Client → Party Id Byte

variable {Client : Type u} {Id : Type v} {Byte : Type w}

def Up.bytes : Up Byte → List Byte
  | .data bytes => bytes
  | _ => []

def Down.bytes : Down Id Byte → List Byte
  | .data bytes => bytes
  | _ => []

/-- A part of the file or its end. -/
def Up.carries : Up Byte → Bool
  | .data _ | .complete => true
  | .reply _ => false

def Down.carries : Down Id Byte → Bool
  | .data _ | .complete => true
  | _ => false

def Up.isReply : Up Byte → Bool
  | .reply _ => true
  | _ => false

def Down.isRequest : Down Id Byte → Bool
  | .request _ => true
  | _ => false

def Down.isValid : Down Id Byte → Bool
  | .valid _ _ => true
  | _ => false

namespace Party

variable (s : Party Id Byte)

/-- Nothing is about the file. -/
structure Blank : Prop where
  host : s.host = none
  recv : s.recv = none
  up : s.up = []
  down : s.down = []

/-- Requests on their way. -/
def asks : Nat := s.down.countP Down.isRequest

/-- Answers on their way. -/
def replies : Nat := s.up.countP Up.isReply

/-- Grants on their way. -/
def valids : Nat := s.down.countP Down.isValid

/-- Whether the client has still to answer. -/
def early : Nat :=
  match s.recv with
  | some r => if r.early then 1 else 0
  | none => 0

def recvs : Nat := s.recv.toList.length

def hosts : Nat := s.host.toList.length

/-- The client was asked and its answer has not arrived. -/
def unanswered : Prop := s.asks + s.early + s.replies ≠ 0

/-- Something of the owner's part is here. -/
def owns : Prop := s.valids ≠ 0 ∨ s.host ≠ none ∨ ∃ m ∈ s.up, m.carries = true

/-- The bytes on their way to the server. -/
def sent : List Byte := s.up.flatMap Up.bytes

def coming : List Byte := s.down.flatMap Down.bytes

/-- What the client has still to send as the owner. -/
def left (rest : List Byte) : Prop :=
  (∃ asked, .valid rest asked ∈ s.down) ∨ (∃ H, s.host = some H ∧ H.rest = rest) ∨
    (.complete ∈ s.up ∧ rest = [])

/-- No part of the file has left the owner. -/
structure Idle : Prop where
  up : ∀ m ∈ s.up, m.carries = false
  host : ∀ H, s.host = some H → H.active = false

/-- What one client can tell by itself. -/
structure Sound : Prop where
  single : s.asks + s.recvs ≤ 1
  once : s.asks + s.early + s.replies ≤ 1
  quiet : s.unanswered → ∀ m ∈ s.down, m.carries = false
  unwritten : s.unanswered → ∀ r, s.recv = some r → r.written = []
  valid : s.valids + s.hosts ≤ 1
  last : .complete ∈ s.up → s.host = none ∧ s.valids = 0
  upOrder : s.up.Pairwise fun a b => a = .complete → b.carries = false
  downOrder : s.down.Pairwise fun a b => a = .complete → b.carries = false
  begun : ∀ r, s.recv = some r → r.written ++ s.coming <+: r.source
  whole : .complete ∈ s.down → ∀ r, s.recv = some r → r.early = false →
    r.written ++ s.coming = r.source

end Party

/-- One step of a client. -/
inductive ClientStep (s : Party Id Byte) : Party Id Byte → Prop
  | losesRecv : ClientStep s { s with recv := none }
  | losesHost : ClientStep s { s with host := none }
  | replies (found : s.recv = some r) (early : r.early = true) (accept : Bool) :
      ClientStep s { s with
        recv := if accept then some { r with early := false } else none
        up := s.up ++ [.reply accept] }
  | sends (found : s.host = some H) (active : H.active = true) (left : H.rest = bytes ++ rest) :
      ClientStep s { s with host := some { H with rest }, up := s.up ++ [.data bytes] }
  | completes (found : s.host = some H) (active : H.active = true) (left : H.rest = []) :
      ClientStep s { s with host := none, up := s.up ++ [.complete] }
  | getsRequest (first : s.down = .request source :: rest) :
      ClientStep s { s with recv := some ⟨true, source, []⟩, down := rest }
  | getsValid (first : s.down = .valid source asked :: rest) :
      ClientStep s { s with host := some ⟨false, source, asked⟩, down := rest }
  | hears {i : Id} (first : s.down = .answer i :: rest) (found : s.host = some H)
      (same : K.rest = H.rest) (others : ∀ other, other ≠ i → K.waits other = H.waits other)
      (all : K.active = true → H.active = true ∨ ∀ other, K.waits other = false) :
      ClientStep s { s with host := some K, down := rest }
  | stores (first : s.down = .data bytes :: rest) (found : s.recv = some r)
      (active : r.early = false) :
      ClientStep s { s with recv := some { r with written := r.written ++ bytes }, down := rest }
  | skips (first : s.down = m :: rest)
      (ignores : m.carries = true → ∀ r, s.recv = some r → r.early = true) :
      ClientStep s { s with down := rest }
  | finishes (first : s.down = .complete :: rest) : ClientStep s { s with recv := none, down := rest }

abbrev ClientSteps : Party Id Byte → Party Id Byte → Prop := Relation.ReflTransGen ClientStep

namespace Exchange

variable [DecidableEq Client] (x : Exchange Client Id Byte)

/-- One client's side is replaced. -/
def withSide (c : Client) (s : Party Id Byte) : Exchange Client Id Byte :=
  { x with side := update x.side c s }

/-- The server has taken a message of `c`, which leaves `rest`. -/
def takes (c : Client) (rest : List (Up Byte)) : Exchange Client Id Byte :=
  x.withSide c { x.side c with up := rest }

/-- The server sends. -/
def posts (more : Client → List (Down Id Byte)) : Exchange Client Id Byte :=
  { x with side := fun d => { x.side d with down := (x.side d).down ++ more d } }

/-- The file of `c` is offered to `asked`. -/
def grant (c : Client) (source : List Byte) (asked : Id → Bool) : Exchange Client Id Byte :=
  { x.posts fun d => (if d = c then [.valid source asked] else []) ++
      if x.live d ∧ asked (x.name d) then [.request source] else [] with
    row := fun d => if x.live d ∧ asked (x.name d) then .asked else .none }

/-- A part of the file from `c` is forwarded to those that accepted. -/
def relay (c : Client) (bytes : List Byte) (rest : List (Up Byte)) : Exchange Client Id Byte :=
  (x.takes c rest).posts fun d => if x.row d = .accepted then [.data bytes] else []

/-- The server waits for the answer of `c`. -/
def awaited (c : Client) : Prop := x.row c = .asked ∧ (x.side c).unanswered

/-- What holds between the steps. -/
structure Sound : Prop where
  side : ∀ c, (x.side c).Sound
  apart : ∀ c d, x.live c = true → x.live d = true → x.name c = x.name d → c = d
  gone : ∀ c, x.live c = false → x.row c = .none
  fresh : ∀ c, (x.side c).unanswered → x.row c = .none ∨ x.row c = .asked
  own : ∀ c d, x.live c = true → (x.side c).owns → x.live d = true → (x.side d).owns → c = d
  finished : ∀ c h, x.live c = true → .complete ∈ (x.side c).down → x.live h = true →
    ¬ (x.side h).owns
  idle : ∀ c h, x.awaited c → x.live h = true → (x.side h).Idle
  waits : ∀ c h H, x.awaited c → x.live h = true → (x.side h).host = some H →
    H.waits (x.name c) = true
  asked : ∀ c h source asked, x.awaited c → x.live h = true →
    .valid source asked ∈ (x.side h).down → asked (x.name c) = true
  heard : ∀ c h, x.awaited c → x.live h = true → .answer (x.name c) ∉ (x.side h).down
  offered : ∀ c h rest source, x.awaited c → .request source ∈ (x.side c).down →
    x.live h = true → (x.side h).left rest → rest = source
  parts : ∀ c h rest r, x.row c = .accepted ∨ x.awaited c → (x.side c).recv = some r →
    x.live h = true → (x.side h).left rest →
      r.written ++ (x.side c).coming ++ (x.side h).sent ++ rest = r.source
  goes : ∀ c h r, x.row c = .accepted ∨ x.awaited c → (x.side c).recv = some r →
    x.live h = true → r.written ++ (x.side c).coming ++ (x.side h).sent <+: r.source

end Exchange

variable [DecidableEq Client]

/-- One step of a client or of the server, except that the server offers the file or
forwards a part of it. -/
inductive Move (x : Exchange Client Id Byte) : Exchange Client Id Byte → Prop
  | client (c : Client) (turn : ClientStep (x.side c) s) : Move x (x.withSide c s)
  | records (first : (x.side c).up = .reply accept :: rest) :
      Move x { x.takes c rest with
        row := update x.row c
          (if x.row c = .none then .none else if accept then .accepted else .denied) }
  | ends (first : (x.side c).up = .complete :: rest) (live : x.live c = true)
      (more : Client → List (Down Id Byte))
      (told : ∀ d, more d = [] ∨ x.row d = .accepted ∧ more d = [.complete]) :
      Move x ((x.takes c rest).posts more)
  | drops (first : (x.side c).up = m :: rest) (other : m.bytes = []) : Move x (x.takes c rest)
  | forgets (row : Client → Row) (fewer : ∀ d, row d = x.row d ∨ row d = .none) :
      Move x { x with row }
  | tells (ids : Client → List Id)
      (settled : ∀ d, ∀ i ∈ ids d, ∀ e, x.name e = i → ¬ x.awaited e) :
      Move x (x.posts fun d => (ids d).map .answer)
  | leaves (c : Client) :
      Move x { x with live := update x.live c false, row := update x.row c .none }
  | enters (new : x.live c = false) (blank : (x.side c).Blank) (i : Id) (row : Row)
      (apart : ∀ d, x.live d = true → x.name d ≠ i) :
      Move x { x with
        live := update x.live c true
        name := update x.name c i
        row := update x.row c row }

/-- One step of a client or of the server. -/
inductive Step (x : Exchange Client Id Byte) : Exchange Client Id Byte → Prop
  | move (moves : Move x y) : Step x y
  | relay (live : x.live c = true) (first : (x.side c).up = .data bytes :: rest) :
      Step x (x.relay c bytes rest)
  | grant (live : x.live c = true) (blank : ∀ d, x.live d = true → (x.side d).Blank)
      (source : List Byte) (asked : Id → Bool) : Step x (x.grant c source asked)

/-- Any number of steps. -/
abbrev Steps : Exchange Client Id Byte → Exchange Client Id Byte → Prop :=
  Relation.ReflTransGen Step

end Quickshare.Relay
