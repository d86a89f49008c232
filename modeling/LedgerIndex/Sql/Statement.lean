import LedgerIndex.Store.Basic
import LedgerIndex.Table.Plan

/-!
# Statements of the relational stores

The relational stores speak to their databases in these statements.  A statement is data: an
embedded database carries it out on its tables, a remote one is sent its text and parameters.
A batch becomes a list of statements to be carried out in one transaction.  Sets are not applied
one by one: they are written to a staging table, and two statements over that table update the
rows that are older and insert those that are missing.
-/

namespace LedgerIndex

/-- A statement.  Times are in milliseconds. -/
inductive Statement where
  | begin
  | commit
  | rollback
  /-- one of the statements that set up tables and indexes -/
  | schema (index : Nat)
  | insertCalls (rows : List CallRecord)
  | insertEvents (rows : List EventRecord)
  /-- makes an empty staging table -/
  | createStage
  | stage (sets : List Change)
  /-- overwrites the rows that are older than the staged set of their key -/
  | updateFromStage (now : Int)
  /-- inserts the staged sets whose key has no row -/
  | insertFromStage (now : Int)
  /-- removes the row of a key unless it is newer -/
  | tombstone (now : Int) (change : Change)
  | upsertCursor (now : Int) (indexer : String) (cursor : Cursor)
  | deleteCursor (indexer : String)
  | selectCursor (indexer : String)
  | selectRow (key : Key)
  | selectRowsAfter (name : String) (after : Int) (limit : UInt64)
  | selectRowsByField (name field expected : String)
  | selectEvents (name : String) (limit : UInt64)
  | selectCounts
  /-- removes all rows of all tables -/
  | clear
  deriving Inhabited

/-- The most rows that one statement inserts. -/
def maxInsertRows : Nat := 500

/-- Cuts a list into pieces of `n`, the last one possibly shorter.  There are no empty pieces. -/
def chunks (n : Nat) (l : List α) : List (List α) :=
  if 0 < n ∧ l ≠ [] then l.take n :: chunks n (l.drop n) else []
termination_by l.length
decreasing_by
  rename_i h
  have : 0 < l.length := List.length_pos_iff.2 h.2
  simp only [List.length_drop]; omega

namespace Statement

/-- The statements that reconcile the sets of a plan.  Without sets there are none. -/
def reconcileSets (now : Int) (sets : List Change) : List Statement :=
  if sets.isEmpty then []
  else
    .createStage :: (chunks maxInsertRows sets).map .stage ++
      [.updateFromStage now, .insertFromStage now]

/-- What a transaction for a batch does between its beginning and its commit. -/
def ofBatch (now : Int) (indexer : String) (b : Batch) : List Statement :=
  let plan := Plan.ofChanges b.changes
  (chunks maxInsertRows b.calls).map .insertCalls ++
    (chunks maxInsertRows b.events).map .insertEvents ++
    reconcileSets now plan.sets ++
    plan.removes.map (.tombstone now) ++
    (match b.cursor with
      | some cursor => [.upsertCursor now indexer cursor]
      | none => [])

/-- The summary of a commit. -/
def summary (b : Batch) : CommitSummary :=
  let plan := Plan.ofChanges b.changes
  ⟨b.calls.length, b.events.length, plan.sets.length, plan.removes.length, b.cursor⟩

end Statement

end LedgerIndex
