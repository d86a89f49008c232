import LedgerIndex.Sql.Tables

/-!
# Tables that may only be read

An embedded database that was opened only to be read.  It answers questions, and refuses every
statement that writes, even where it would change nothing.  What is staged is written elsewhere, so
that alone is not refused.
-/

namespace LedgerIndex

/-- The statement writes to the tables of a database. -/
def Statement.isWrite : Statement → Bool
  | insertCalls _ | insertEvents _ | updateFromStage _ | insertFromStage _ | tombstone _ _
  | upsertCursor _ _ _ | deleteCursor _ | clear => true
  | _ => false

namespace Sql

/-- The tables of an embedded database that may only be read. -/
structure ReadOnly where
  tables : Tables
  deriving Inhabited

namespace ReadOnly

/-- A statement that writes was refused. -/
def refusal : Error :=
  .storage "error returned from database: (code: 8) attempt to write a readonly database"

/-- Takes in a batch, if nothing of it is written. -/
def commit (now : Int) (indexer : String) (b : Batch) (s : ReadOnly) :
    Except Error CommitSummary × ReadOnly :=
  if (Statement.ofBatch now indexer b).any Statement.isWrite then (.error refusal, s)
  else (.ok (Statement.summary b), s)

/-- Asks the tables. -/
def ask (f : Tables → α × Tables) (s : ReadOnly) : α × ReadOnly := ((f s.tables).1, s)

instance : TableStore ReadOnly where
  loadCursor indexer := ask (CommitStore.loadCursor indexer)
  commit := commit
  saveCursor _ _ _ s := (.error refusal, s)
  deleteCursor _ s := (.error refusal, s)
  row? key := ask (TableStore.row? key)
  rowsAfter name after limit := ask (TableStore.rowsAfter name after limit)
  rowsByField name field expected := ask (TableStore.rowsByField name field expected)
  lastEvents name limit := ask (TableStore.lastEvents name limit)
  counts := ask TableStore.counts
  clear s := (.error refusal, s)

end ReadOnly

end Sql

end LedgerIndex
