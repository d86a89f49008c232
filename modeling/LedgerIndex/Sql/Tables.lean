import LedgerIndex.Sql.FieldPath
import LedgerIndex.Sql.Statement
import LedgerIndex.Json.Reader

/-!
# The embedded relational store

Tables of an embedded database, and what the statements do to them.  Checkpoints are kept as
signed words, so one of `2 ^ 63` or more compares as a negative number.  JSON values are kept as
their text.  An absent key column is NULL: columns are compared so that NULL equals NULL, and a
unique index maps NULL to a blob, which no text equals.  Row ids go on counting when rows are
deleted.
-/

namespace LedgerIndex.Sql

/-! ## Rows -/

/-- A row of the table of rows. -/
structure StateRow where
  id : Int
  name : String
  key1 : Option String
  key2 : Option String
  value : String
  checkpoint : Int64
  digest : String
  isRemoved : Bool
  deriving DecidableEq, Repr, Inhabited

/-- A row of the staging table. -/
structure StagedRow where
  name : String
  key1 : Option String
  key2 : Option String
  value : String
  checkpoint : Int64
  digest : String
  deriving DecidableEq, Repr, Inhabited

/-- A row of the call log. -/
structure CallRow where
  sender : String
  checkpoint : Int64
  digest : String
  package : String
  module : String
  function : String
  arguments : String
  cursor : String
  createdAt : Int
  deriving DecidableEq, Repr, Inhabited

/-- A row of the event log. -/
structure EventRow where
  sender : String
  checkpoint : Int64
  digest : String
  name : String
  rawName : String
  value : String
  createdAt : Int
  deriving DecidableEq, Repr, Inhabited

/-- A row of the table of cursors. -/
structure CursorRow where
  indexer : String
  digest : String
  checkpoint : Int64
  updatedAt : Int
  deriving DecidableEq, Repr, Inhabited

namespace StagedRow

/-- The row that a set is staged as. -/
def ofChange (c : Change) : StagedRow :=
  ⟨c.key.name, c.key.key1, c.key.key2, (c.value.getD .null).text, c.checkpoint.toInt64, c.digest⟩

/-- The staged row has the key of a row; NULL equals NULL. -/
def sameKey (s : StagedRow) (r : StateRow) : Bool :=
  r.name == s.name && r.key1 == s.key1 && r.key2 == s.key2

end StagedRow

/-- The row of the call log for a record. -/
def CallRow.ofRecord (r : CallRecord) : CallRow :=
  ⟨r.sender, r.checkpoint.toInt64, r.digest, r.package, r.module, r.function, r.arguments.text,
    r.cursor, r.createdAt⟩

/-- The row of the event log for an entry. -/
def EventRow.ofRecord (r : EventRecord) : EventRow :=
  ⟨r.sender, r.checkpoint.toInt64, r.digest, r.name, r.rawName, r.value.text, r.createdAt⟩

/-! ## The unique index -/

/-- A value of an indexed expression. -/
inductive IndexValue where
  | text (s : String)
  | blob (bytes : List UInt8)
  deriving DecidableEq, Repr

/-- A key column in the index: NULL becomes a blob. -/
def IndexValue.ofColumn : Option String → IndexValue
  | some s => text s
  | none => blob [0]

/-- The entry of a row in the unique index. -/
def StateRow.indexEntry (r : StateRow) : String × IndexValue × IndexValue :=
  (r.name, .ofColumn r.key1, .ofColumn r.key2)

/-! ## Tables -/

/-- The tables of an embedded database. -/
structure Tables where
  calls : List CallRow
  events : List EventRow
  rows : List StateRow
  /-- the largest row id ever used -/
  lastId : Nat
  stage : List StagedRow
  cursors : List CursorRow
  deriving DecidableEq, Repr, Inhabited

/-- The tables of a fresh database. -/
def Tables.empty : Tables := ⟨[], [], [], 0, [], []⟩

/-- Why a statement failed. -/
inductive Violation where
  /-- an insert met the unique index of the rows -/
  | uniqueKey
  deriving DecidableEq, Repr

/-- The text of a violation. -/
def Violation.message : Violation → String
  | uniqueKey =>
    "error returned from database: (code: 2067) UNIQUE constraint failed: " ++
      "index 'idx_state_records_key'"

namespace Tables

/-- Overwrites each row that is older than a staged row of its key. -/
def updateFromStage (t : Tables) : Tables :=
  { t with
    rows := t.rows.map fun r =>
      match t.stage.find? fun s => s.sameKey r && r.checkpoint < s.checkpoint with
      | some s =>
        { r with value := s.value, checkpoint := s.checkpoint, digest := s.digest
                 isRemoved := false }
      | none => r }

/-- The staged rows whose key has no row. -/
def missing (t : Tables) : List StagedRow :=
  t.stage.filter fun s => !t.rows.any fun r => s.sameKey r

/-- Inserts a row under the next id. -/
def insertRow (t : Tables) (s : StagedRow) : Except Violation Tables :=
  let r : StateRow :=
    ⟨t.lastId + 1, s.name, s.key1, s.key2, s.value, s.checkpoint, s.digest, false⟩
  if t.rows.any fun other => other.indexEntry == r.indexEntry then .error .uniqueKey
  else .ok { t with rows := t.rows ++ [r], lastId := t.lastId + 1 }

/-- Inserts rows in order. -/
def insertRows (t : Tables) : List StagedRow → Except Violation Tables
  | [] => .ok t
  | s :: rest => do (← t.insertRow s).insertRows rest

/-- Removes the row of a key unless it is newer. -/
def tombstone (t : Tables) (c : Change) : Tables :=
  { t with
    rows := t.rows.map fun r =>
      if r.name == c.key.name && r.key1 == c.key.key1 && r.key2 == c.key.key2 &&
          r.checkpoint ≤ c.checkpoint.toInt64 then
        { r with isRemoved := true, checkpoint := c.checkpoint.toInt64, digest := c.digest }
      else r }

/-- Removes the cursor of an indexer. -/
def deleteCursor (t : Tables) (indexer : String) : Tables :=
  { t with cursors := t.cursors.filter (·.indexer != indexer) }

/-- Stores a cursor in place of the one its indexer had. -/
def upsertCursor (t : Tables) (now : Int) (indexer : String) (c : Cursor) : Tables :=
  { t with
    cursors := ⟨indexer, c.digest, c.checkpoint.toInt64, now⟩ :: (t.deleteCursor indexer).cursors }

/-- What a statement does to the tables.  Those that only read do nothing, and the bounds of a
transaction are not the tables' concern. -/
def execute (t : Tables) : Statement → Except Violation Tables
  | .insertCalls rows => .ok { t with calls := t.calls ++ rows.map .ofRecord }
  | .insertEvents rows => .ok { t with events := t.events ++ rows.map .ofRecord }
  | .createStage => .ok { t with stage := [] }
  | .stage sets => .ok { t with stage := t.stage ++ sets.map .ofChange }
  | .updateFromStage _ => .ok t.updateFromStage
  | .insertFromStage _ => t.insertRows t.missing
  | .tombstone _ c => .ok (t.tombstone c)
  | .upsertCursor now indexer c => .ok (t.upsertCursor now indexer c)
  | .deleteCursor indexer => .ok (t.deleteCursor indexer)
  | .clear => .ok { t with calls := [], events := [], rows := [], cursors := [] }
  | _ => .ok t

/-- Carries out statements in order, up to the first that fails. -/
def executeAll (t : Tables) : List Statement → Except Violation Tables
  | [] => .ok t
  | s :: rest => do (← t.execute s).executeAll rest

/-- Takes in a batch in one transaction: all of it, or nothing. -/
def commit (t : Tables) (now : Int) (indexer : String) (b : Batch) :
    Except Violation CommitSummary × Tables :=
  match t.executeAll (Statement.ofBatch now indexer b) with
  | .ok t => (.ok (Statement.summary b), t)
  | .error v => (.error v, t)

/-! ## Queries -/

/-- Reads a JSON column. -/
def column (text : String) : Except Error Json :=
  match Json.parse text with
  | .ok v => .ok v
  | .error _ => .error (.storage ("not a JSON text: " ++ text))

/-- The row that a row of the table stands for. -/
def readRow (r : StateRow) : Except Error Row := do
  return ⟨r.id, r.name, r.key1, r.key2, ← column r.value, r.checkpoint.toUInt64, r.digest,
    r.isRemoved⟩

/-- The entry that a row of the event log stands for. -/
def readEvent (r : EventRow) : Except Error EventRecord := do
  return ⟨r.sender, r.checkpoint.toUInt64, r.digest, r.name, r.rawName, ← column r.value,
    r.createdAt⟩

/-- The cursor of an indexer. -/
def cursor? (t : Tables) (indexer : String) : Option StoredCursor :=
  (t.cursors.find? (·.indexer == indexer)).map fun r =>
    ⟨r.indexer, ⟨r.digest, r.checkpoint.toUInt64⟩, r.updatedAt⟩

/-- The row with a key, removed or not; NULL equals NULL. -/
def row? (t : Tables) (key : Key) : Except Error (Option Row) :=
  match t.rows.find? fun r => r.name == key.name && r.key1 == key.key1 && r.key2 == key.key2 with
  | some r => (readRow r).map some
  | none => .ok none

/-- The live rows of a table. -/
def liveRows (t : Tables) (name : String) : List StateRow :=
  t.rows.filter fun r => r.name == name && !r.isRemoved

/-- The live rows of a table with an id above `after`, at most `limit` of them. -/
def rowsAfter (t : Tables) (name : String) (after : Option Int) (limit : Nat) :
    Except Error (List Row) :=
  (((t.liveRows name).filter fun r => after.getD 0 < r.id).take limit).mapM readRow

/-- A text as it stands between single quotes, where a quote is written twice. -/
def doubleQuotes (cs : List Char) : String :=
  String.ofList (cs.flatMap fun c => if c = '\'' then [c, c] else [c])

/-- A row has the field with the given text. -/
def hasField (field expected : String) (r : StateRow) : Except Error Bool := do
  let path := FieldPath.ofField field
  match FieldPath.follow (path.length + 1) path (← column r.value) with
  | .ok found => return found.bind FieldPath.compareText == some expected
  | .error rest =>
    .error (.storage ("error returned from database: (code: 1) JSON path error near '" ++
      doubleQuotes rest ++ "'"))

/-- The rows that pass a test that may fail, in order. -/
def filterRows (test : StateRow → Except Error Bool) : List StateRow → Except Error (List StateRow)
  | [] => .ok []
  | r :: rest => do
    let found ← test r
    let others ← filterRows test rest
    return if found then r :: others else others

/-- The live rows of a table whose value has a field with the given text. -/
def rowsByField (t : Tables) (name field expected : String) : Except Error (List Row) := do
  (← filterRows (hasField field expected) (t.liveRows name)).mapM readRow

/-- The last entries of a name, at most `limit` of them, newest first. -/
def lastEvents (t : Tables) (name : String) (limit : Nat) : Except Error (List EventRecord) :=
  ((t.events.reverse.filter (·.name == name)).take limit).mapM readEvent

/-- Sizes of the tables. -/
def counts (t : Tables) : Counts :=
  ⟨t.calls.length, t.events.length, t.rows.length, t.rows.countP fun r => !r.isRemoved⟩

/-- The number of logged calls of a transaction. -/
def callCount (t : Tables) (digest : String) : Nat := t.calls.countP (·.digest == digest)

/-- The answer of a statement that can only fail by a violation. -/
def lift (r : Except Violation α × Tables) : Except Error α × Tables :=
  (r.1.mapError fun v => .storage v.message, r.2)

end Tables

instance : TableStore Tables where
  loadCursor indexer t := (.ok (t.cursor? indexer), t)
  commit now indexer b t := Tables.lift (t.commit now indexer b)
  saveCursor now indexer cursor t := (.ok (), t.upsertCursor now indexer cursor)
  deleteCursor indexer t := (.ok (), t.deleteCursor indexer)
  row? key t := (t.row? key, t)
  rowsAfter name after limit t := (t.rowsAfter name after limit, t)
  rowsByField name field expected t := (t.rowsByField name field expected, t)
  lastEvents name limit t := (t.lastEvents name limit, t)
  counts t := (.ok t.counts, t)
  clear t := (.ok (), { t with calls := [], events := [], rows := [], cursors := [] })

end LedgerIndex.Sql
