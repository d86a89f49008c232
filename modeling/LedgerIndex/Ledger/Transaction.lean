import LedgerIndex.Json.Basic

/-!
# Transactions of the ledger

What a page of the ledger holds: transactions with the calls they made and the events they
emitted.
-/

namespace LedgerIndex

/-- A call that a transaction made, its arguments resolved. -/
structure Call where
  package : String
  module : String
  function : String
  arguments : Json
  deriving Inhabited

/-- An event as the ledger returns it. -/
structure RawEvent where
  /-- the full type, such as `0xabc::shop::Sold` -/
  type : String
  sender : String
  payload : Json
  deriving Inhabited

/-- A transaction of the ledger. -/
structure Transaction where
  digest : String
  checkpoint : UInt64
  timestamp : UInt64
  sender : String
  calls : List Call
  events : List RawEvent
  deriving Inhabited

/-- Which transactions are asked for: those that changed the given object. -/
structure ObjectFilter where
  object : String
  deriving DecidableEq, Repr, Inhabited

/-- The form in which the ledger takes the filter. -/
def ObjectFilter.toJson (f : ObjectFilter) : Json :=
  .ofMembers [("ChangedObject", .string f.object)]

end LedgerIndex
