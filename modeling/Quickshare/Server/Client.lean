import Quickshare.Server.Queue
import Quickshare.Server.Database

/-! `client.h`, `buffer.h`, `secure.h` and `client.c`: the table of 32 client
slots. TLS is outside: a session is the function that seals its records. -/

namespace Quickshare

open Bytes

abbrev maxClients : Nat := 32

abbrev Slot := Fin maxClients

/-- `Buffer`; `n` is its `bytes`. -/
structure Buffer (n : Nat) where
  data : Mem n
  len : Nat
  size : Nat

/-- `B_RESET`: `memset` of `size` bytes, then both counters. -/
def Buffer.reset (b : Buffer n) : Buffer n where
  data := b.data.write 0 (List.replicate b.size 0)
  len := 0
  size := 0

/-- `(Packet*)B_DATA(buf)`. -/
def Buffer.packet (b : Buffer packetMaxSize) : Packet := b.data

/-- What `write_data` did on a client, in order (kept for specifications). -/
inductive WriteAct where
  | write
  | dequeue
  | encrypt
  | close
  deriving DecidableEq, Repr

/-- An `SSL` object. `record n plain` is what its `n`-th `SSL_write` puts into the
write BIO. -/
structure Ssl where
  record : Nat → List UInt8 → List UInt8
  /-- Plaintexts sealed so far, oldest first. -/
  sealed : List (List UInt8)

/-- A session that adds nothing to its plaintexts. -/
def Ssl.plain : Ssl := ⟨fun _ plain => plain, []⟩

structure Secure where
  /-- `none` once freed. -/
  ssl : Option Ssl
  encryptedBuf : Buffer (2 * packetMaxSize)
  /-- Bytes the socket has taken (kept for specifications). -/
  wire : List UInt8
  acts : List WriteAct

inductive ClientState where
  | empty
  | connected
  | secure
  | complete
  deriving DecidableEq, Repr

structure Client where
  id : ClientId
  fd : Int
  state : ClientState
  sessionId : SessionId
  name : List UInt8
  msgQueue : Queue Packet
  decryptBuf : Buffer packetMaxSize
  secure : Secure

structure ClientList where
  list : Slot → Client
  nCli : Nat

/-- A slot as `client_list_init` leaves it in zeroed pool memory. -/
def Client.blank : Client where
  id := 0
  fd := 0
  state := .empty
  sessionId := 0
  name := List.replicate pcNameMaxLen 0
  msgQueue := {
    items := fun _ => Mem.zero packetMaxSize
    head := 0
    tail := 0
    len := maxClients / 2
    size := packetMaxSize
    count := 0 }
  decryptBuf := ⟨Mem.zero packetMaxSize, 0, 0⟩
  secure := ⟨none, ⟨Mem.zero (2 * packetMaxSize), 0, 0⟩, [], []⟩

def clientListInit : ClientList := ⟨fun _ => Client.blank, 0⟩

def secureInit (ssl : Ssl) (s : Secure) : Secure where
  ssl := some ssl
  encryptedBuf := {
    data := s.encryptedBuf.data.write 0 (List.replicate s.encryptedBuf.size 0)
    len := 0
    size := s.encryptedBuf.size }
  wire := []
  acts := []

/-- `now` is what `time(NULL)` returns. -/
def clientConfigure (now : ClientId) (ssl : Ssl) (c : Client) : Client where
  state := .connected
  id := now
  sessionId := 0
  fd := 0
  name := List.replicate pcNameMaxLen 0
  decryptBuf := c.decryptBuf.reset
  secure := secureInit ssl c.secure
  msgQueue := c.msgQueue.reset (Mem.zero packetMaxSize)

namespace ClientList

def modify (clients : ClientList) (i : Slot) (f : Client → Client) : ClientList :=
  { clients with list := Function.update clients.list i (f (clients.list i)) }

def search (clients : ClientList) (p : Client → Bool) : Option Slot :=
  (List.finRange maxClients).find? fun i => p (clients.list i)

end ClientList

def clientInit (clients : ClientList) (now : ClientId) (ssl : Ssl) : Option (Slot × ClientList) :=
  if clients.nCli = maxClients then none
  else (clients.search (·.state = .empty)).map fun i =>
    (i, { clients.modify i (clientConfigure now ssl) with nCli := clients.nCli + 1 })

def clientFind (clients : ClientList) (fd : Int) : Option Slot :=
  clients.search fun c => c.state ≠ .empty ∧ c.fd = fd

def clientFindById (clients : ClientList) (id : ClientId) : Option Slot :=
  clients.search fun c => c.state ≠ .empty ∧ c.id = id

/-- The slot keeps its id, queue and buffers; only the state and the TLS
object go. -/
def Client.freed (c : Client) : Client :=
  { c with state := .empty, secure := { c.secure with ssl := none } }

def clientClose (clients : ClientList) (fd : Int) : ClientList :=
  match clientFind clients fd with
  | none => clients
  | some i => { clients.modify i Client.freed with nCli := clients.nCli - 1 }

variable {clients first second : ClientList} {i j : Slot} {id : ClientId} {fd : Int}

namespace ClientList

theorem modify_self (clients : ClientList) (i : Slot) (f : Client → Client) :
    (clients.modify i f).list i = f (clients.list i) :=
  Function.update_self ..

theorem modify_of_ne (clients : ClientList) (f : Client → Client) (other : j ≠ i) :
    (clients.modify i f).list j = clients.list j :=
  Function.update_of_ne other ..

theorem modify_comm (clients : ClientList) (f g : Client → Client) (other : i ≠ j) :
    (clients.modify i f).modify j g = (clients.modify j g).modify i f := by
  have inner := clients.modify_of_ne f (Ne.symm other)
  have outer := clients.modify_of_ne g other
  simp only [modify] at inner outer ⊢
  rw [inner, outer, Function.update_comm other]

/-- A field the change leaves alone is the same in every slot. -/
theorem modify_field (clients : ClientList) (i : Slot) (f : Client → Client)
    (field : Client → Value) (kept : ∀ c, field (f c) = field c) (j : Slot) :
    field ((clients.modify i f).list j) = field (clients.list j) := by
  by_cases same : j = i
  · subst same
    rw [modify_self, kept]
  · rw [modify_of_ne clients f same]

theorem search_some {p : Client → Bool} (found : clients.search p = some i) :
    p (clients.list i) = true :=
  List.find?_some (p := fun i => p (clients.list i)) found

theorem search_none {p : Client → Bool} (missing : clients.search p = none) (i : Slot) :
    p (clients.list i) = false := by
  have absent := List.find?_eq_none.mp missing i (List.mem_finRange i)
  simpa using absent

theorem search_isSome {p : Client → Bool} (i : Slot) (here : p (clients.list i) = true) :
    ∃ j, clients.search p = some j := by
  cases found : clients.search p with
  | some j => exact ⟨j, rfl⟩
  | none =>
    have absent := search_none found i
    rw [here] at absent
    cases absent

theorem search_congr {p : Client → Bool}
    (same : ∀ i, p (first.list i) = p (second.list i)) : first.search p = second.search p := by
  unfold search
  congr 1
  funext i
  exact same i

end ClientList

theorem clientFindById_some (found : clientFindById clients id = some i) :
    (clients.list i).state ≠ .empty ∧ (clients.list i).id = id := by
  simpa using ClientList.search_some found

theorem clientFind_some (found : clientFind clients fd = some i) :
    (clients.list i).state ≠ .empty ∧ (clients.list i).fd = fd := by
  simpa using ClientList.search_some found

theorem clientFindById_none (missing : clientFindById clients id = none) (i : Slot)
    (live : (clients.list i).state ≠ .empty) : (clients.list i).id ≠ id := by
  have absent := ClientList.search_none missing i
  simpa [live] using absent

theorem clientFindById_live (live : (clients.list i).state ≠ .empty) :
    ∃ j, clientFindById clients (clients.list i).id = some j :=
  ClientList.search_isSome i (by simpa using live)

theorem clientClose_self (found : clientFind clients fd = some i) :
    (clientClose clients fd).list i = (clients.list i).freed := by
  simp only [clientClose, found]
  exact clients.modify_self i Client.freed

theorem clientClose_of_ne (other : clientFind clients fd ≠ some i) :
    (clientClose clients fd).list i = clients.list i := by
  unfold clientClose
  cases found : clientFind clients fd with
  | none => rfl
  | some j =>
    have ne : i ≠ j := fun same => other (same ▸ found)
    exact clients.modify_of_ne Client.freed ne

theorem clientInit_some {clients taken : ClientList} {now : ClientId} {ssl : Ssl}
    (done : clientInit clients now ssl = some (i, taken)) :
    (clients.list i).state = .empty ∧
      taken = { clients.modify i (clientConfigure now ssl) with nCli := clients.nCli + 1 } := by
  unfold clientInit at done
  split at done
  · cases done
  · obtain ⟨j, found, same⟩ := Option.map_eq_some_iff.mp done
    cases same
    exact ⟨by simpa using ClientList.search_some found, rfl⟩

end Quickshare
