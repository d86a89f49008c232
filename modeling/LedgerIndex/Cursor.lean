/-!
# Cursors

A cursor is the point up to which a ledger has been indexed: the last transaction taken in, and
its checkpoint.
-/

namespace LedgerIndex

/-- A position in the ledger. -/
structure Cursor where
  digest : String
  checkpoint : UInt64
  deriving DecidableEq, Repr, Inhabited

namespace Cursor

/-- The cursor past a further transaction, wherever in the ledger that one is. -/
def advance (_ : Cursor) (digest : String) (checkpoint : UInt64) : Cursor := ⟨digest, checkpoint⟩

/-- A checkpoint lies before the cursor. -/
def isBehind (c : Cursor) (checkpoint : UInt64) : Bool := checkpoint < c.checkpoint

end Cursor

/-- A cursor as a store keeps it, for one indexer. -/
structure StoredCursor where
  indexer : String
  cursor : Cursor
  /-- when it was stored, in milliseconds -/
  updatedAt : Int
  deriving DecidableEq, Repr, Inhabited

end LedgerIndex
