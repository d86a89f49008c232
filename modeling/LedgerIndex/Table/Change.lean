import LedgerIndex.Json.Basic
import LedgerIndex.Table.Key

/-!
# Changes of table rows

A change either sets the value of a row or removes the row.
-/

namespace LedgerIndex

/-- A change of one row. -/
structure Change where
  key : Key
  /-- the new value; nothing for a removal -/
  value : Option Json
  checkpoint : UInt64
  digest : String
  sender : String
  deriving Inhabited

/-- The change removes the row. -/
def Change.isRemove (c : Change) : Bool := c.value.isNone

end LedgerIndex
