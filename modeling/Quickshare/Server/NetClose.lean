import Quickshare.Server.NetPacket

/-! `net_close.c`. -/

namespace Quickshare

def sendUserDisconnect (s : Server) (c : Slot) : Run Server :=
  (List.finRange maxClients).foldlM (fun s i =>
    let other := s.client i
    if other.id ≠ (s.client c).id ∧ other.sessionId = (s.client c).sessionId ∧
        other.state = .complete then
      sendSingleUser s i c .serverDelUsers
    else .ok s) s

/-- Every transfer `c` created, in the order of the outer cursor. -/
def cancelTransactionCreator (s : Server) (c : Slot) (ids : List TransferId) : Run Server :=
  ids.foldlM (fun s tId => cancelTransfer s c tId) s

def cancelTransactionUser (s : Server) (c : Slot) : Run Server := do
  let (infos, db) := dbGetCreator s.db (s.client c).id
  let s ← infos.foldlM (cancelCreator (s.client c).id) { s with db }
  return { s with db := dbClientDelete s.db (s.client c).id }

def cancelTransaction (s : Server) (c : Slot) : Run Server := do
  let (begun, db) := dbTransaction s.db .begin
  let s := { s with db }
  if begun then
    let (ids, db) := dbGetTransfer s.db (s.client c).id
    let s ← cancelTransactionCreator { s with db } c ids
    let s ← cancelTransactionUser s c
    return { s with db := (dbTransaction s.db .commit).2 }
  else
    return s

/-- The part of `close_client` for a client in a session. -/
def leaveSession (s : Server) (c : Slot) : Run Server :=
  if (s.client c).state = .complete then do
    let s ← cancelTransaction s c
    sendUserDisconnect s c
  else .ok s

/-- `deleted` tells whether `EPOLL_CTL_DEL` would succeed on a known descriptor. -/
def closeClient (s : Server) (fd : Int) (deleted : Bool) : Run Server :=
  match epollDel s fd deleted with
  | (false, s) => .ok s
  | (true, s) =>
    match clientFind s.clients fd with
    | none => .ok s
    | some c => do
      let s ← leaveSession s c
      return { s with
        clients := clientClose s.clients fd
        openFds := s.openFds.erase fd }

end Quickshare
