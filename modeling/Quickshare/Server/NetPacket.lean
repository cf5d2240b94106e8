import Quickshare.Server.Server

/-! The packet handlers of `net_packet.c`. `c` is the slot of the client whose
`decrypt_buf` holds the packet. -/

namespace Quickshare

open Bytes

/-- One turn of the loop in `send_session_users`; `packet` is the slot taken in
`c`'s queue at the first match, whose `users_len` is incremented, not set. -/
def sendSessionUser (c : Slot) (state : Server × Option Nat × Nat) (i : Slot) :
    Run (Server × Option Nat × Nat) := do
  let (s, packet, count) := state
  let user := s.client i
  if user.id ≠ (s.client c).id ∧ user.state = .complete ∧
      user.sessionId = (s.client c).sessionId then
    let (slot, s) ← match packet with
      | some slot => pure (slot, s)
      | none => do
        let (slot, s) ← s.enqueue c
        pure (slot, s.fill c slot (Packet.packetHdr .serverNewUsers newUsersSize))
    let s := s.fill c slot fun p =>
      ((p.write (8 + pcNameMaxLen * count) user.name).storeInt64 (520 + 8 * count) user.id).store
        776 1 (p.newUsersLen + 1)
    let s ← sendSingleUser s i c .serverNewUsers
    return (s, some slot, count + 1)
  else
    return state

def sendSessionUsers (s : Server) (c : Slot) : Run Server := do
  let (s, _, _) ← (List.finRange maxClients).foldlM (sendSessionUser c) (s, none, 0)
  return s

/-- Only the header is written. -/
def serverResponse (s : Server) (c : Slot) (type : PacketType) : Run Server :=
  s.send c (Packet.packetHdr type 0)

/-- The terminators `packet_intro` writes into `decrypt_buf`. -/
def terminateIntro (p : Packet) : Packet := (p.store 23 1 0).store 39 1 0

def packetIntro (s : Server) (c : Slot) : Run Server := do
  let p := (s.client c).decryptBuf.packet
  if (s.client c).state = .complete ∨ p.introSession > 1 then
    serverResponse s c .serverDeny
  else
    let p := terminateIntro p
    let s := s.modify c fun client =>
      { client with decryptBuf := { client.decryptBuf with data := p } }
    let (session, db) :=
      if p.introSession = 0 then dbGetSession s.db (cString p.introId)
      else dbCreateSession s.db (cString p.introId)
    let s := { s with db }
    if session = 0 then
      serverResponse s c .serverDeny
    else
      let s ← serverResponse s c .serverOk
      let s := s.modify c fun client =>
        { client with state := .complete, sessionId := session, name := p.introName }
      sendSessionUsers s c

/-- `check_recipients` from the recipients at `indices` on. -/
def checkRecipients (clients : ClientList) (c : Client) (tId : TransferId) (p : Packet) :
    Database → List Nat → Bool × Database
  | db, [] => (true, db)
  | db, i :: rest =>
    if p.hdrTo i = 0 then (i ≠ 0, db)
    else match clientFindById clients (p.hdrTo i) with
      | none => (false, db)
      | some r =>
        if (clients.list r).sessionId ≠ c.sessionId then (false, db)
        else match dbCreateClient db tId (clients.list r).id with
          | (false, db) => (false, db)
          | (true, db) => checkRecipients clients c tId p db rest

def echoTransferRequest (s : Server) (c : Slot) (req : Packet) (tId : TransferId) :
    List Nat → Run Server
  | [] => .ok s
  | i :: rest =>
    if req.hdrTo i = 0 then .ok s
    else match clientFindById s.clients (req.hdrTo i) with
      | none => .error (.recipient, s)
      | some r => do
        let s ← s.send r fun _ => (req.storeInt64 16 (s.client c).id).storeInt64 8 tId
        echoTransferRequest s c req tId rest

def sendTransferResponse (s : Server) (c : Slot) (req : Packet) (type : PacketType)
    (tId : TransferId) : Run Server :=
  s.send c fun _ =>
    let response := Packet.packetHdr type requestSize req
    if type = .transferValid then response.storeInt64 8 tId else response

/-- The text buffer of `debug_transfer`: write offset, `capacity` (a `size_t`)
and whether every byte so far lay inside. -/
structure DebugText where
  ptr : Nat
  capacity : Nat
  inside : Bool
  deriving DecidableEq, Repr

/-- One `sprintf` of `n` characters, `snprintf` when `bounded`. -/
def DebugText.print (t : DebugText) (bounded : Bool) (n : Nat) : DebugText where
  ptr := t.ptr + n
  capacity := (t.capacity + 2 ^ 64 - n) % 2 ^ 64
  inside := t.inside && t.ptr + (if bounded then min (n + 1) t.capacity else n + 1) ≤ 124

/-- Characters of a decimal number. -/
def decimalLength (v : Int) : Nat := (toString v).length

/-- The recipient lines from `indices` on. -/
def debugUsers (p : Packet) : DebugText → List Nat → DebugText
  | t, [] => t
  | t, i :: rest =>
    if p.hdrTo i = 0 then t
    else
      let n := 4 + decimalLength (p.hdrTo i).toInt
      let t := t.print true n
      if n ≥ t.capacity then t else debugUsers p t rest

/-- Both title lines have 50 characters; the fixed text of the second print 44. -/
def debugTransfer (p : Packet) : DebugText :=
  let t := DebugText.print ⟨0, 124, true⟩ true 50
  let t := t.print false (44 + (cString p.fileName).length + decimalLength p.fileSize +
    decimalLength p.clientTransferId.toUInt64.toNat)
  debugUsers p t (List.range transferClientsMax)

/-- The three statements of `packet_transfer` up to its `COMMIT`. -/
def recordTransfer (clients : ClientList) (c : Client) (db : Database) (p : Packet) :
    Bool × TransferId × Database :=
  let (tId, db) := dbCreateTransfer db c.id
  if tId = 0 then (false, tId, db)
  else match checkRecipients clients c tId p db (List.range transferClientsMax) with
    | (false, db) => (false, tId, db)
    | (true, db) =>
      let (committed, db) := dbTransaction db .commit
      (committed, tId, db)

def packetTransfer (s : Server) (c : Slot) : Run Server := do
  let p := (s.client c).decryptBuf.packet
  let (begun, db) := dbTransaction s.db .begin
  let s := { s with db }
  if begun then
    let (recorded, tId, db) := recordTransfer s.clients (s.client c) s.db p
    let s := { s with db }
    if recorded then
      let s := { s with committed := s.committed ++ [tId] }
      let s ← sendTransferResponse s c p .transferValid tId
      echoTransferRequest s c p tId (List.range transferClientsMax)
    else
      let s ← sendTransferResponse s c p .transferInvalid 0
      let (_, db) := dbTransaction s.db .rollback
      let s := { s with db }
      if (debugTransfer p).inside then return s else .error (.outOfBounds, s)
  else
    sendTransferResponse s c p .transferInvalid 0

def packetReply (s : Server) (c : Slot) : Run Server := do
  let p := (s.client c).decryptBuf.packet
  let db := dbClientAccept s.db (s.client c).id p.tId (p.replyAccept ≠ 0)
  let (cId, db) := dbGetCreatorByTid db p.tId
  let s := { s with db }
  if cId = 0 then return s
  else match clientFindById s.clients cId with
    | none => .error (.creator, s)
    | some creator => s.send creator fun _ => p.storeInt64 16 (s.client c).id

/-- Copy the packet to each client of the cursor that is connected: the loop
of `packet_data` and `packet_complete`. -/
def relay (p : Packet) (s : Server) (recpId : ClientId) : Run Server :=
  match clientFindById s.clients recpId with
  | none => .ok s
  | some other => s.send other fun _ => p

/-- No check that `c` takes part in the transfer. -/
def packetData (s : Server) (c : Slot) : Run Server := do
  let p := (s.client c).decryptBuf.packet
  let (recps, db) := dbGetClientAllAccepted s.db p.tId
  recps.foldlM (relay p) { s with db }

/-- Tell a recipient, if connected, that the transfer is cancelled: the loop
body shared by `cancel_as_creator` and `cancel_transaction_creator`. -/
def cancelRecipient (sender : ClientId) (tId : TransferId) (s : Server) (id : ClientId) :
    Run Server :=
  match clientFindById s.clients id with
  | none => .ok s
  | some recipient => sendTransferState s recipient sender tId .transferCancel

/-- Inform every recipient of one transfer of `c`, then delete the transfer. -/
def cancelTransfer (s : Server) (c : Slot) (tId : TransferId) : Run Server := do
  let (ids, db) := dbGetClientAll s.db tId
  let s ← ids.foldlM (cancelRecipient (s.client c).id tId) { s with db }
  return { s with db := dbCleanupTransfer s.db tId }

def cancelAsCreator (s : Server) (c : Slot) (target : TransferId) : Run (Bool × Server) :=
  let (ids, db) := dbGetTransfer s.db (s.client c).id
  search { s with db } ids
where
  search (s : Server) : List TransferId → Run (Bool × Server)
    | [] => .ok (false, s)
    | tId :: rest =>
      if tId = target then do
        let s ← cancelTransfer s c tId
        return (true, s)
      else search s rest

/-- Tell a transfer's creator, if connected, that `c` has left it. -/
def cancelCreator (sender : ClientId) (s : Server) (info : TransferInfo) : Run Server :=
  match clientFindById s.clients info.creator with
  | none => .ok s
  | some creator => sendTransferState s creator sender info.tId .transferCancel

def cancelAsRecipient (s : Server) (c : Slot) (target : TransferId) : Run (Bool × Server) :=
  let (infos, db) := dbGetCreator s.db (s.client c).id
  search { s with db } infos
where
  search (s : Server) : List TransferInfo → Run (Bool × Server)
    | [] => .ok (false, s)
    | info :: rest =>
      if info.tId = target then do
        let s ← cancelCreator (s.client c).id s info
        return (true, { s with db := dbClientDelete s.db (s.client c).id })
      else search s rest

/-- As its creator if `c` is, else as one of its recipients. -/
def cancelTarget (s : Server) (c : Slot) (target : TransferId) : Run Server := do
  let (cancelled, s) ← cancelAsCreator s c target
  if cancelled then return s
  else
    let (_, s) ← cancelAsRecipient s c target
    return s

def packetCancel (s : Server) (c : Slot) : Run Server := do
  let p := (s.client c).decryptBuf.packet
  let (begun, db) := dbTransaction s.db .begin
  let s := { s with db }
  if begun then
    let s ← cancelTarget s c p.tId
    return { s with db := (dbTransaction s.db .commit).2 }
  else
    return s

def packetComplete (s : Server) (c : Slot) : Run Server :=
  let (ids, db) := dbGetTransfer s.db (s.client c).id
  search { s with db } ids
where
  search (s : Server) : List TransferId → Run Server
    | [] => .ok s
    | tId :: rest =>
      let p := (s.client c).decryptBuf.packet
      if tId = p.tId then do
        let (recps, db) := dbGetClientAllAccepted s.db tId
        let s ← recps.foldlM (relay p) { s with db }
        return { s with db := dbCleanupTransfer s.db tId }
      else search s rest

def analizePacket (s : Server) (c : Slot) : Run Server :=
  match (s.client c).decryptBuf.packet.type? with
  | some .clientIntro => packetIntro s c
  | some .transferRequest => packetTransfer s c
  | some .transferReply => packetReply s c
  | some .transferData => packetData s c
  | some .transferComplete => packetComplete s c
  | some .transferCancel => packetCancel s c
  | _ => .ok s

end Quickshare
