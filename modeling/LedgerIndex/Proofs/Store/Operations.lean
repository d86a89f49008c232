import LedgerIndex.Store.Memory

/-!
# Operations on a store

What a client can do with a store, as data: each operation changes the store and has an answer.  A
list of operations has a list of answers, each operation at the time that a clock tells.
-/

namespace LedgerIndex

/-- An operation on a store. -/
inductive Operation where
  | commit (indexer : String) (batch : Batch)
  | saveCursor (indexer : String) (cursor : Cursor)
  | loadCursor (indexer : String)
  | deleteCursor (indexer : String)
  | row (key : Key)
  | rowsAfter (name : String) (after : Option Int) (limit : Nat)
  | lastEvents (name : String) (limit : Nat)
  | counts
  | clear

/-- The answer to an operation. -/
inductive Answer where
  | done
  | summary (s : CommitSummary)
  | cursor (c : Option StoredCursor)
  | row (r : Option Row)
  | rows (rs : List Row)
  | events (es : List EventRecord)
  | counts (c : Counts)

namespace Operation

variable {σ : Type} [TableStore σ]

/-- Carries an operation out at a time. -/
def perform (now : Int) (op : Operation) (s : σ) : Except Error Answer × σ :=
  match op with
  | commit indexer batch => (CommitStore.commit now indexer batch s).map (·.map .summary) id
  | saveCursor indexer cursor =>
    (TableStore.saveCursor now indexer cursor s).map (·.map fun _ => .done) id
  | loadCursor indexer => (CommitStore.loadCursor indexer s).map (·.map .cursor) id
  | deleteCursor indexer => (TableStore.deleteCursor indexer s).map (·.map fun _ => .done) id
  | row key => (TableStore.row? key s).map (·.map .row) id
  | rowsAfter name after limit => (TableStore.rowsAfter name after limit s).map (·.map .rows) id
  | lastEvents name limit => (TableStore.lastEvents name limit s).map (·.map .events) id
  | counts => (TableStore.counts s).map (·.map .counts) id
  | clear => (TableStore.clear s).map (·.map fun _ => .done) id

/-- The answers to operations carried out one after the other. -/
def answers (clock : Nat → Int) : List Operation → σ → List (Except Error Answer)
  | [], _ => []
  | op :: ops, s =>
    let (answer, s') := op.perform (clock 0) s
    answer :: answers (fun i => clock (i + 1)) ops s'

end Operation

end LedgerIndex
