import Quickshare.Shared.Message

/-! `database.c` over the three tables of `db_init.sql`. Every statement
consults `outcome`, which says after how many rows it fails, so a run covers
every way SQLite may fail. A cursor is the list of rows its steps return. -/

namespace Quickshare

structure SessionRow where
  name : List UInt8
  id : SessionId
  deriving DecidableEq

structure TransferRow where
  transferId : TransferId
  creatorId : ClientId
  deriving DecidableEq, Repr

structure TransferClientRow where
  transferId : TransferId
  clientId : ClientId
  /-- -1 until the client answers, then 0 or 1. -/
  accepted : Int
  deriving DecidableEq, Repr

structure Tables where
  sessions : List SessionRow
  transfers : List TransferRow
  transferClients : List TransferClientRow
  deriving DecidableEq

structure Database where
  tables : Tables
  /-- The tables at `BEGIN` while a transaction is open. -/
  saved : Option Tables
  /-- `some k` when the `n`-th statement fails after `k` rows. -/
  outcome : Nat → Option Nat
  executed : Nat

/-- A new database whose statements all succeed. -/
def Database.fresh : Database where
  tables := ⟨[], [], []⟩
  saved := none
  outcome := fun _ => none
  executed := 0

inductive TransactionStmt where
  | begin
  | commit
  | rollback
  deriving DecidableEq

/-- The largest rowid in use. -/
def lastRowid : List Int64 → Option Int64
  | [] => none
  | id :: rest => match lastRowid rest with
    | none => some id
    | some last => some (if last < id then id else last)

/-- The rowid of an insert into an `INTEGER PRIMARY KEY` column without
`AUTOINCREMENT`. Past the largest 64-bit id SQLite tries unused ids at random;
here it finds none, and the insert fails. -/
def nextRowid (ids : List Int64) : Option Int64 :=
  match lastRowid ids with
  | none => some 1
  | some last => if last = Int64.maxValue then none else some (last + 1)

namespace Database

/-- Count one statement and tell how it ends. -/
def tick (db : Database) : Option Nat × Database :=
  (db.outcome db.executed, { db with executed := db.executed + 1 })

/-- The rows the steps of one `SELECT` return. -/
def select (db : Database) (rows : Tables → List Row) : List Row × Database :=
  match db.tick with
  | (none, next) => (rows db.tables, next)
  | (some stop, next) => ((rows db.tables).take stop, next)

/-- One `INSERT`, `UPDATE` or `DELETE`; `change` is `none` on a violated constraint. -/
def exec (db : Database) (change : Tables → Option Tables) : Bool × Database :=
  match db.tick, change db.tables with
  | (none, next), some tables => (true, { next with tables })
  | (_, next), _ => (false, next)

end Database

open Database

def dbCreateSession (db : Database) (name : List UInt8) : SessionId × Database :=
  match nextRowid (db.tables.sessions.map SessionRow.id) with
  | none => (0, (db.exec fun _ => none).2)
  | some id =>
    match db.exec fun tables =>
        if name ∈ tables.sessions.map SessionRow.name then none
        else some { tables with sessions := tables.sessions ++ [⟨name, id⟩] } with
    | (true, next) => (id, next)
    | (false, next) => (0, next)

def dbGetSession (db : Database) (name : List UInt8) : SessionId × Database :=
  match db.select fun tables => tables.sessions.filter (·.name = name) with
  | (row :: _, next) => (row.id, next)
  | ([], next) => (0, next)

def dbCleanupTransfer (db : Database) (tId : TransferId) : Database :=
  let (_, db) := db.exec fun tables => some { tables with
    transferClients := tables.transferClients.filter (·.transferId ≠ tId) }
  let (_, db) := db.exec fun tables => some { tables with
    transfers := tables.transfers.filter (·.transferId ≠ tId) }
  db

def dbCreateTransfer (db : Database) (cId : ClientId) : TransferId × Database :=
  match nextRowid (db.tables.transfers.map TransferRow.transferId) with
  | none => (0, (db.exec fun _ => none).2)
  | some id =>
    match db.exec fun tables =>
        some { tables with transfers := tables.transfers ++ [⟨id, cId⟩] } with
    | (true, next) => (id, next)
    | (false, next) => (0, next)

/-- The ids `db_get_transfer` and the `db_transfer_step`s after it return
before the first 0. -/
def dbGetTransfer (db : Database) (cId : ClientId) : List TransferId × Database :=
  let (rows, db) := db.select fun tables => tables.transfers.filter (·.creatorId = cId)
  ((rows.map TransferRow.transferId).takeWhile (· ≠ 0), db)

/-- `db_get_client_all` and `db_client_all_step`. -/
def dbGetClientAll (db : Database) (tId : TransferId) : List ClientId × Database :=
  let (rows, db) := db.select fun tables =>
    tables.transferClients.filter fun row => row.transferId = tId ∧ row.accepted ≠ 0
  ((rows.map TransferClientRow.clientId).takeWhile (· ≠ 0), db)

/-- `db_get_client_all_accepted` and `db_client_all_step_accepted`. -/
def dbGetClientAllAccepted (db : Database) (tId : TransferId) : List ClientId × Database :=
  let (rows, db) := db.select fun tables =>
    tables.transferClients.filter fun row => row.transferId = tId ∧ row.accepted = 1
  ((rows.map TransferClientRow.clientId).takeWhile (· ≠ 0), db)

structure TransferInfo where
  creator : ClientId
  tId : TransferId
  deriving DecidableEq

/-- `db_get_creator` and `db_creator_step`: the join of a client's rows with
their transfers. -/
def dbGetCreator (db : Database) (cId : ClientId) : List TransferInfo × Database :=
  let (rows, db) := db.select fun tables =>
    (tables.transferClients.filter (·.clientId = cId)).flatMap fun row =>
      tables.transfers.filter (·.transferId = row.transferId)
  ((rows.map fun row => ⟨row.creatorId, row.transferId⟩).takeWhile (·.creator ≠ 0), db)

def dbGetCreatorByTid (db : Database) (tId : TransferId) : ClientId × Database :=
  match db.select fun tables => tables.transfers.filter (·.transferId = tId) with
  | (row :: _, next) => (row.creatorId, next)
  | ([], next) => (0, next)

/-- The `where` clause names the client only. -/
def dbClientDelete (db : Database) (cId : ClientId) : Database :=
  (db.exec fun tables => some { tables with
    transferClients := tables.transferClients.filter (·.clientId ≠ cId) }).2

def dbClientAccept (db : Database) (cId : ClientId) (tId : TransferId) (accept : Bool) :
    Database :=
  (db.exec fun tables => some { tables with
    transferClients := tables.transferClients.map fun row =>
      if row.clientId = cId ∧ row.transferId = tId
      then { row with accepted := if accept then 1 else 0 } else row }).2

/-- `BEGIN` fails while a transaction is open, `COMMIT` may fail and leave it
open, `ROLLBACK` always closes it. -/
def dbTransaction (db : Database) (type : TransactionStmt) : Bool × Database :=
  match type, db.tick, db.saved with
  | .begin, (none, next), none => (true, { next with saved := some db.tables })
  | .commit, (none, next), some _ => (true, { next with saved := none })
  | .rollback, (_, next), some tables => (true, { next with tables, saved := none })
  | _, (_, next), _ => (false, next)

def dbCreateClient (db : Database) (tId : TransferId) (cId : ClientId) : Bool × Database :=
  db.exec fun tables => some { tables with
    transferClients := tables.transferClients ++ [⟨tId, cId, -1⟩] }

end Quickshare
