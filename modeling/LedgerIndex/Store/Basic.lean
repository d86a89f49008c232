import LedgerIndex.Batch
import LedgerIndex.Error

/-!
# Stores

What a store holds and can be asked.  A store takes in a batch as a whole or not at all.
-/

namespace LedgerIndex

/-- A row of a table.  A removed row stays, so that older changes cannot bring it back. -/
structure Row where
  id : Int
  name : String
  key1 : Option String
  key2 : Option String
  value : Json
  /-- checkpoint and transaction of the last change -/
  checkpoint : UInt64
  digest : String
  isRemoved : Bool
  deriving Inhabited

/-- The key that the columns of a row give. -/
def Row.key (r : Row) : Key := ⟨r.name, r.key1, r.key2⟩

/-- What a commit wrote: records, entries, and the sets and removals that were planned. -/
structure CommitSummary where
  calls : Nat
  events : Nat
  sets : Nat
  removes : Nat
  cursor : Option Cursor
  deriving DecidableEq, Repr, Inhabited

/-- Sizes of the tables of a store. -/
structure Counts where
  calls : Nat
  events : Nat
  rows : Nat
  /-- rows that are not removed -/
  liveRows : Nat
  deriving DecidableEq, Repr, Inhabited

/-- What the sync loop needs of a store. -/
class CommitStore (σ : Type) where
  /-- the cursor of an indexer -/
  loadCursor : String → σ → Except Error (Option StoredCursor) × σ
  /-- takes in a batch, at a time given in milliseconds -/
  commit : Int → String → Batch → σ → Except Error CommitSummary × σ

/-- A store that can also be asked and edited. -/
class TableStore (σ : Type) extends CommitStore σ where
  saveCursor : Int → String → Cursor → σ → Except Error Unit × σ
  deleteCursor : String → σ → Except Error Unit × σ
  /-- the row with a key, removed or not -/
  row? : Key → σ → Except Error (Option Row) × σ
  /-- the live rows of a table with an id above the given one, at most so many, by id -/
  rowsAfter : String → Option Int → Nat → σ → Except Error (List Row) × σ
  /-- the live rows of a table whose value has a field with the given text, by id -/
  rowsByField : String → String → String → σ → Except Error (List Row) × σ
  /-- the last entries of a name, at most so many, newest first -/
  lastEvents : String → Nat → σ → Except Error (List EventRecord) × σ
  counts : σ → Except Error Counts × σ
  /-- removes everything, cursors included -/
  clear : σ → Except Error Unit × σ

/-- The text of a field of a value, as look-ups by field compare it: a string as it is, any other
value as compact JSON, and nothing for `null`. -/
def fieldText (value : Json) (field : String) : Option String := keyText (value.get? field)

end LedgerIndex
