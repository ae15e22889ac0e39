import Renop.CrashProg

/-!
# Emulated ClickHouse transactions

ClickHouse has no transactions; `clickhouse_transaction.go` emulates them with before-images. A
transaction keeps, for each user table it mutates, a snapshot table with the old rows, a journal row
that names the snapshot, and one row in the key table for each row key it has saved. `rollback` and
`recoverTransactions` put the old rows back (`restoreSnapshot`); `commit` forgets them.

A user table is a map from `_renop_key` to its row. Every `conn.Exec` and every query is one atomic
step of `Crash.Prog`. `tx` is the open transaction of the process: it holds the backend lock, so
there is at most one, and it does not survive a crash.
-/

namespace Renop.ClickHouse
open Crash

def clickHouseTransactionJournal : String := "_renop_transaction_journal"

def clickHouseTransactionKeys : String := "_renop_transaction_keys"

/-- The contents of one table: `_renop_key` to row. -/
abbrev Contents (Row : Type) : Type := String → Option Row

inductive ClickHouseError
  /-- An error of the driver. -/
  | exec
  /-- `sql.ErrTxDone` -/
  | txDone
  | text (message : String)
  /-- `fmt.Errorf("message: %w", cause)` -/
  | wrap (message : String) (cause : ClickHouseError)
  | join (first second : ClickHouseError)
deriving DecidableEq, Repr

structure JournalRow where
  transactionId : String
  tableName : String
  snapshotName : String
deriving DecidableEq, Repr

structure KeyRow where
  transactionId : String
  tableName : String
  rowKey : String
deriving DecidableEq, Repr

/-- The in-memory `clickHouseTransaction`: its id and the snapshot of each table it has mutated. -/
structure Transaction where
  id : String
  snapshots : List (String × String)
deriving DecidableEq, Repr

structure Backend (Row : Type) where
  tables : String → Contents Row
  /-- The `_renop_tx_…` tables of `system.tables` with their rows (MergeTree: rows may repeat). -/
  snapshots : List (String × List (String × Row))
  journal : List JournalRow
  keys : List KeyRow
  /-- The open transaction, if any: closed is `none`. -/
  tx : Option Transaction

abbrev TxM (Row α : Type) : Type := Prog (Backend Row) ClickHouseError α

def validIdentifierChar (c : Char) : Bool :=
  c == '_' || ('a' ≤ c && c ≤ 'z') || ('A' ≤ c && c ≤ 'Z') || ('0' ≤ c && c ≤ '9')

def validClickHouseIdentifier (value : String) : Bool :=
  value != "" && value.toList.all validIdentifierChar

/-! ### Statements -/

/-- The mutations a transaction executes. -/
inductive Statement (Row : Type)
  /-- `INSERT INTO table VALUES …`: a keyed table keeps the last row of a key. -/
  | insert (table : String) (rows : List (String × Row))
  /-- `ALTER TABLE table UPDATE … WHERE …` -/
  | alterUpdate (table : String) (set : Row → Row) (cond : String → Row → Bool)
  /-- `DELETE FROM table WHERE …` -/
  | deleteFrom (table : String) (cond : String → Row → Bool)

/-- `INSERT` of one row into a keyed table. -/
def Contents.upsert {Row : Type} (c : Contents Row) (row : String × Row) : Contents Row :=
  fun k => if k = row.1 then some row.2 else c k

namespace Statement
variable {Row : Type}

def table : Statement Row → String
  | insert t _ => t
  | alterUpdate t _ _ => t
  | deleteFrom t _ => t

def apply : Statement Row → Contents Row → Contents Row
  | insert _ rows, c => rows.foldl Contents.upsert c
  | alterUpdate _ set cond, c => fun k => (c k).map fun r => if cond k r then set r else r
  | deleteFrom _ cond, c => fun k => (c k).bind fun r => if cond k r then none else some r

end Statement

/-- What `mutationKeys` answers for a statement on the current contents of its table. -/
abbrev MutationKeys (Row : Type) : Type :=
  Statement Row → Contents Row → Except ClickHouseError (List String)

/-- `mutationKeys` returns at least the keys of the rows the statement changes. -/
def MutationKeys.Covers {Row : Type} (mutationKeys : MutationKeys Row) : Prop :=
  ∀ st c ks, mutationKeys st c = .ok ks → ∀ k, st.apply c k ≠ c k → k ∈ ks

/-! ### The statements of the emulation, as atomic steps -/

namespace Backend
variable {Row : Type}

def setTable (s : Backend Row) (table : String) (c : Contents Row) : Backend Row :=
  { s with tables := fun t => if t = table then c else s.tables t }

/-- The rows of a snapshot table, if it exists. -/
def snapshot? (s : Backend Row) (name : String) : Option (List (String × Row)) :=
  s.snapshots.lookup name

/-- ``CREATE TABLE `snapshot` AS `table` ENGINE = MergeTree ORDER BY tuple()`` -/
def createSnapshot (name : String) (s : Backend Row) : Except ClickHouseError (Unit × Backend Row) :=
  match s.snapshot? name with
  | some _ => .error .exec
  | none => .ok ((), { s with snapshots := (name, []) :: s.snapshots })

/-- ``DROP TABLE IF EXISTS `snapshot` `` -/
def dropSnapshot (name : String) (s : Backend Row) : Backend Row :=
  { s with snapshots := s.snapshots.filter fun p => p.1 != name }

/-- The journal is keyed by transaction and table. -/
def insertJournal (row : JournalRow) (s : Backend Row) : Backend Row :=
  { s with journal := row :: s.journal.filter fun j =>
      !(j.transactionId == row.transactionId && j.tableName == row.tableName) }

def deleteJournal (id table : String) (s : Backend Row) : Backend Row :=
  { s with journal := s.journal.filter fun j => !(j.transactionId == id && j.tableName == table) }

def insertKey (row : KeyRow) (s : Backend Row) : Backend Row :=
  { s with keys := if row ∈ s.keys then s.keys else row :: s.keys }

def deleteKeys (id table : String) (s : Backend Row) : Backend Row :=
  { s with keys := s.keys.filter fun k => !(k.transactionId == id && k.tableName == table) }

/-- ``INSERT INTO `snapshot` SELECT * FROM `table` WHERE _renop_key = ?`` -/
def copyRow (table name key : String) (s : Backend Row) : Except ClickHouseError (Unit × Backend Row) :=
  match s.snapshot? name with
  | none => .error .exec
  | some _ => .ok ((), { s with snapshots := s.snapshots.map fun p =>
      if p.1 = name then
        (p.1, p.2 ++ match s.tables table key with
          | some r => [(key, r)]
          | none => [])
      else p })

/-- `DELETE FROM table WHERE _renop_key IN (SELECT row_key FROM keys WHERE …)` -/
def deleteRecorded (id table : String) (s : Backend Row) : Backend Row :=
  s.setTable table fun k => if ⟨id, table, k⟩ ∈ s.keys then none else s.tables table k

/-- ``INSERT INTO `table` SELECT * FROM `snapshot` `` -/
def insertSnapshot (table name : String) (s : Backend Row) : Except ClickHouseError (Unit × Backend Row) :=
  match s.snapshot? name with
  | none => .error .exec
  | some rows => .ok ((), s.setTable table (rows.foldl Contents.upsert (s.tables table)))

/-- The statement itself. -/
def runStatement (st : Statement Row) (s : Backend Row) : Backend Row :=
  s.setTable st.table (st.apply (s.tables st.table))

/-- Drop every key row whose transaction has no journal row. -/
def deleteOrphanKeys (s : Backend Row) : Backend Row :=
  { s with keys := s.keys.filter fun k => s.journal.any fun j => j.transactionId == k.transactionId }

/-- What a process crash leaves: the durable tables, but no open transaction. -/
def lost (s : Backend Row) : Backend Row := { s with tx := none }

end Backend

section Programs
variable {Row : Type}

/-- `conn.Exec` of a statement that ClickHouse itself does not refuse. -/
def connExec (f : Backend Row → Backend Row) : TxM Row Unit :=
  Prog.step .exec fun s => .ok ((), f s)

/-- `conn.Exec` of a statement that ClickHouse may refuse. -/
def connTry (f : Backend Row → Except ClickHouseError (Unit × Backend Row)) : TxM Row Unit :=
  Prog.step .exec f

/-- `conn.QueryRow(…).Scan` and `conn.Query`. -/
def connQuery {α : Type} (f : Backend Row → α) : TxM Row α :=
  Prog.step .exec fun s => .ok (f s, s)

/-! ### `ensureSnapshot` and `exec` -/

/-- The snapshot of `table` in the open transaction; the first mutation of a table creates it. -/
def snapshotOf (tx : Transaction) (table : String) : TxM Row String :=
  match tx.snapshots.lookup table with
  | some snapshot => pure snapshot
  | none => do
    let snapshot := "_renop_tx_" ++ tx.id ++ "_" ++ toString tx.snapshots.length
    (connTry (Backend.createSnapshot snapshot)).mapError
      (.wrap ("create ClickHouse transaction snapshot for " ++ table))
    match ← (connExec (Backend.insertJournal ⟨tx.id, table, snapshot⟩)).attempt with
    | .error e =>
      let _ ← (connExec (Backend.dropSnapshot snapshot)).attempt
      Prog.throw (.wrap ("record ClickHouse transaction snapshot for " ++ table) e)
    | .ok () =>
      Prog.modify fun s => { s with tx := some { tx with snapshots := (table, snapshot) :: tx.snapshots } }
      pure snapshot

/-- Save the row under `key` before its first change in this transaction. -/
def saveKey (id table snapshot key : String) : TxM Row Unit := do
  let recorded ← (connQuery fun s => decide (⟨id, table, key⟩ ∈ s.keys)).mapError
    (.wrap ("inspect ClickHouse transaction key for " ++ table))
  if recorded then
    pure ()
  else do
    (connTry (Backend.copyRow table snapshot key)).mapError (.wrap ("snapshot ClickHouse row in " ++ table))
    (connExec (Backend.insertKey ⟨id, table, key⟩)).mapError
      (.wrap ("record ClickHouse transaction key for " ++ table))

/-- `tx.mutationKeys`: an `INSERT` has its keys in the statement, any other mutation queries the
table for them. -/
def listMutationKeys (mutationKeys : MutationKeys Row) (st : Statement Row) : TxM Row (List String) :=
  match st with
  | .insert .. => Prog.check fun s => mutationKeys st (s.tables st.table)
  | _ => Prog.step (.wrap ("list ClickHouse transaction keys for " ++ st.table) .exec) fun s =>
      (mutationKeys st (s.tables st.table)).map fun ks => (ks, s)

def ensureSnapshot (mutationKeys : MutationKeys Row) (tx : Transaction) (st : Statement Row) :
    TxM Row Unit :=
  if validClickHouseIdentifier st.table then do
    let snapshot ← snapshotOf tx st.table
    let keys ← listMutationKeys mutationKeys st
    Prog.forEach keys (saveKey tx.id st.table snapshot)
  else
    Prog.throw (.text ("invalid ClickHouse transaction table " ++ st.table))

/-- `backend.countMutationRows`: only an `ALTER` or a `DELETE` needs the query. -/
def countMutationRows : Statement Row → TxM Row Unit
  | .insert .. => pure ()
  | _ => connQuery fun _ => ()

def execUnlocked (st : Statement Row) : TxM Row Unit := do
  countMutationRows st
  connExec (Backend.runStatement st)

/-- Mutations of these tables are snapshotted: not the journal, the key table or a snapshot. -/
def snapshotted (table : String) : Bool :=
  table != "" && table != clickHouseTransactionJournal && table != clickHouseTransactionKeys &&
    !"_renop_tx_".toList.isPrefixOf table.toList

def exec (mutationKeys : MutationKeys Row) (st : Statement Row) : TxM Row Unit := do
  match ← Prog.read Backend.tx with
  | none => Prog.throw .txDone
  | some tx =>
    if snapshotted st.table then
      ensureSnapshot mutationKeys tx st
    execUnlocked st

def begin (id : String) (s : Backend Row) : Backend Row := { s with tx := some ⟨id, []⟩ }

/-- The `exec` calls of one transaction; its caller may go on after an error. -/
def execAll (mutationKeys : MutationKeys Row) (sts : List (Statement Row)) : TxM Row Unit :=
  Prog.forEach sts fun st => do
    let _ ← (exec mutationKeys st).attempt
    pure ()

/-! ### `restoreSnapshot`, `rollback`, `commit`, `recoverTransactions` -/

def restoreSnapshot (id table snapshot : String) : TxM Row Unit :=
  if validClickHouseIdentifier table && validClickHouseIdentifier snapshot then do
    let snapshotExists ← connQuery fun s => (s.snapshot? snapshot).isSome
    if snapshotExists then
      (connExec (Backend.deleteRecorded id table)).mapError
        (.wrap ("remove changed ClickHouse rows from " ++ table ++ " during rollback"))
      (connTry (Backend.insertSnapshot table snapshot)).mapError (.wrap ("restore ClickHouse table " ++ table))
    connExec (Backend.deleteKeys id table)
    connExec (Backend.deleteJournal id table)
    if snapshotExists then
      (connExec (Backend.dropSnapshot snapshot)).mapError
        (.wrap ("remove restored ClickHouse transaction snapshot " ++ snapshot))
  else
    Prog.throw (.text "invalid ClickHouse transaction journal entry")

/-- `errors.Join` with an accumulated error. -/
def joinError (acc : Option ClickHouseError) (e : ClickHouseError) : Option ClickHouseError :=
  some (match acc with | none => e | some a => .join a e)

/-- Restore every table of the transaction, going on after an error; `order` is the order in which
the map is walked. -/
def restoreSnapshots (id : String) : (order : List (String × String)) → Option ClickHouseError →
    TxM Row Unit
  | [], none => pure ()
  | [], some e => Prog.throw e
  | (table, snapshot) :: order, acc => do
    match ← (restoreSnapshot id table snapshot).attempt with
    | .ok () => restoreSnapshots id order acc
    | .error e => restoreSnapshots id order (joinError acc e)

/-- Unlock the backend: the transaction is closed whatever happened. -/
def finish : TxM Row Unit := Prog.modify Backend.lost

/-- Run `m`, then `finish`, and return what `m` returned. -/
def deferFinish (m : TxM Row Unit) : TxM Row Unit := do
  let r ← m.attempt
  finish
  match r with
  | .ok () => pure ()
  | .error e => Prog.throw e

/-- `order` is the order in which the map of snapshots is walked. -/
def rollback (order : List (String × String)) : TxM Row Unit := do
  match ← Prog.read Backend.tx with
  | none => Prog.throw .txDone
  | some tx => deferFinish (restoreSnapshots tx.id order none)

/-- The loop of `commit`: a failed journal delete restores every table, later failures are logged. -/
def commitTables (id : String) (restoreOrder : List (String × String)) :
    (order : List (String × String)) → TxM Row Unit
  | [] => pure ()
  | (table, snapshot) :: order => do
    match ← (connExec (Backend.deleteJournal id table)).attempt with
    | .error e =>
      match ← (restoreSnapshots id restoreOrder none).attempt with
      | .ok () => Prog.throw e
      | .error e' => Prog.throw (.join e e')
    | .ok () =>
      let _ ← (connExec (Backend.deleteKeys id table)).attempt
      let _ ← (connExec (Backend.dropSnapshot snapshot)).attempt
      commitTables id restoreOrder order

/-- `order` and `restoreOrder` are the orders in which the two loops walk the map of snapshots. -/
def commit (order restoreOrder : List (String × String)) : TxM Row Unit := do
  match ← Prog.read Backend.tx with
  | none => Prog.throw .txDone
  | some tx => deferFinish (commitTables tx.id restoreOrder order)

/-- The order in which ClickHouse returns the rows of the two queries of `recoverTransactions`, which
have no `ORDER BY`. -/
structure Scan where
  entries : List JournalRow → List JournalRow
  orphans : List String → List String
  entries_perm : ∀ rows, (entries rows).Perm rows
  orphans_perm : ∀ rows, (orphans rows).Perm rows

/-- The rows in the order they are stored in. -/
def Scan.stored : Scan := ⟨id, id, .refl, .refl⟩

/-- Drop the snapshot tables that no journal row read at the start names. -/
def dropOrphans (scan : Scan) (active : List String) : TxM Row Unit := do
  let names ← connQuery fun s => scan.orphans (s.snapshots.map Prod.fst)
  Prog.forEach names fun name =>
    if name ∉ active ∧ validClickHouseIdentifier name then
      (connExec (Backend.dropSnapshot name)).mapError
        (.wrap ("remove orphaned ClickHouse transaction snapshot " ++ name))
    else
      pure ()

def recoverTransactions (scan : Scan) : TxM Row Unit := do
  let entries ← connQuery fun s => scan.entries s.journal
  Prog.forEach entries fun j => restoreSnapshot j.transactionId j.tableName j.snapshotName
  dropOrphans scan (entries.map JournalRow.snapshotName)
  (connExec Backend.deleteOrphanKeys).mapError (.wrap "remove orphaned ClickHouse transaction keys")

end Programs
end Renop.ClickHouse
