import LedgerIndex.Store.Basic
import LedgerIndex.Table.Plan

/-!
# The store in memory

Rows are kept under their keys, in the order in which these were first set.  A row has the columns of
its key as well, and look-ups and changes by key do not read them.  An older change never overwrites
a newer row: a set needs a checkpoint above that of the row, a removal one that is not below it.
-/

namespace LedgerIndex

namespace Row

/-- The row that a set makes where there was none. -/
def create (id : Int) (c : Change) : Row :=
  { id, name := c.key.name, key1 := c.key.key1, key2 := c.key.key2
    value := c.value.getD .null, checkpoint := c.checkpoint, digest := c.digest
    isRemoved := false }

/-- The row after a set. -/
def set (r : Row) (c : Change) : Row :=
  if r.checkpoint < c.checkpoint then
    { r with
      value := c.value.getD .null, checkpoint := c.checkpoint, digest := c.digest
      isRemoved := false }
  else r

/-- The row after a removal.  The value stays. -/
def remove (r : Row) (c : Change) : Row :=
  if r.checkpoint ≤ c.checkpoint then
    { r with checkpoint := c.checkpoint, digest := c.digest, isRemoved := true }
  else r

end Row

/-- A store in memory. -/
structure Memory where
  calls : List CallRecord
  events : List EventRecord
  /-- each row with the key under which it is found -/
  table : List (Key × Row)
  /-- the last id that was given to a row -/
  lastId : Nat
  cursors : List StoredCursor
  deriving Inhabited

namespace Memory

/-- The store with nothing in it. -/
def empty : Memory := ⟨[], [], [], 0, []⟩

/-! ## Cursors -/

/-- The cursor of an indexer. -/
def cursor? (m : Memory) (indexer : String) : Option StoredCursor :=
  m.cursors.find? (·.indexer == indexer)

/-- Removes the cursor of an indexer. -/
def deleteCursor (m : Memory) (indexer : String) : Memory :=
  { m with cursors := m.cursors.filter (·.indexer != indexer) }

/-- Stores the cursor of an indexer in place of the one it had. -/
def saveCursor (m : Memory) (now : Int) (indexer : String) (cursor : Cursor) : Memory :=
  { m with cursors := ⟨indexer, cursor, now⟩ :: (m.deleteCursor indexer).cursors }

/-! ## Rows -/

/-- The rows, removed or not. -/
def rows (m : Memory) : List Row := m.table.map (·.2)

/-- The row under a key, removed or not. -/
def row? (m : Memory) (key : Key) : Option Row := (m.table.find? (·.1 == key)).map (·.2)

/-- Changes the row under a key, if there is one. -/
def editRow (m : Memory) (key : Key) (edit : Row → Row) : Memory :=
  { m with table := m.table.map fun e => (e.1, if e.1 = key then edit e.2 else e.2) }

/-- Applies a set. -/
def applySet (m : Memory) (c : Change) : Memory :=
  match m.row? c.key with
  | some _ => m.editRow c.key (·.set c)
  | none =>
    { m with
      table := m.table ++ [(c.key, .create (m.lastId + 1) c)], lastId := m.lastId + 1 }

/-- Applies a removal.  Without a row there is nothing to remove. -/
def applyRemove (m : Memory) (c : Change) : Memory := m.editRow c.key (·.remove c)

/-- Applies a plan: the sets, then the removals. -/
def applyPlan (m : Memory) (p : Plan) : Memory :=
  p.removes.foldl applyRemove (p.sets.foldl applySet m)

/-! ## Commits -/

/-- Takes in a batch. -/
def commit (m : Memory) (now : Int) (indexer : String) (b : Batch) : CommitSummary × Memory :=
  let plan := Plan.ofChanges b.changes
  let logged := { m with calls := m.calls ++ b.calls, events := m.events ++ b.events }
  let reconciled := logged.applyPlan plan
  (⟨b.calls.length, b.events.length, plan.sets.length, plan.removes.length, b.cursor⟩,
    match b.cursor with
    | some cursor => reconciled.saveCursor now indexer cursor
    | none => reconciled)

/-! ## Queries -/

/-- The live rows of a table. -/
def liveRows (m : Memory) (name : String) : List Row :=
  m.rows.filter fun r => r.name == name && !r.isRemoved

/-- The live rows of a table with an id above `after`, at most `limit` of them. -/
def rowsAfter (m : Memory) (name : String) (after : Option Int) (limit : Nat) : List Row :=
  ((m.liveRows name).filter fun r => after.getD 0 < r.id).take limit

/-- The live rows of a table whose value has a field with the given text. -/
def rowsByField (m : Memory) (name field expected : String) : List Row :=
  (m.liveRows name).filter fun r => fieldText r.value field == some expected

/-- The last entries of a name, at most `limit` of them, newest first. -/
def lastEvents (m : Memory) (name : String) (limit : Nat) : List EventRecord :=
  (m.events.reverse.filter (·.name == name)).take limit

/-- Sizes of the tables. -/
def counts (m : Memory) : Counts :=
  ⟨m.calls.length, m.events.length, m.rows.length, m.rows.countP fun r => !r.isRemoved⟩

end Memory

instance : TableStore Memory where
  loadCursor indexer m := (.ok (m.cursor? indexer), m)
  commit now indexer b m := let (summary, m) := m.commit now indexer b; (.ok summary, m)
  saveCursor now indexer cursor m := (.ok (), m.saveCursor now indexer cursor)
  deleteCursor indexer m := (.ok (), m.deleteCursor indexer)
  row? key m := (.ok (m.row? key), m)
  rowsAfter name after limit m := (.ok (m.rowsAfter name after limit), m)
  rowsByField name field expected m := (.ok (m.rowsByField name field expected), m)
  lastEvents name limit m := (.ok (m.lastEvents name limit), m)
  counts m := (.ok m.counts, m)
  clear _ := (.ok (), .empty)

end LedgerIndex
