/-!
# Errors

What can go wrong while a ledger is indexed, with the text that tells of it.
-/

namespace LedgerIndex

/-- An error, by the part of the program it came from. -/
inductive Error where
  /-- the ledger could not be asked, or gave no usable answer -/
  | rpc (text : String)
  /-- a store could not read or write -/
  | storage (text : String)
  /-- an event does not have the form of one -/
  | malformed (digest reason : String)
  | config (text : String)
  | subscription (text : String)
  | aborted (reason : String)
  | other (text : String)
  deriving DecidableEq, Repr, Inhabited

namespace Error

/-- The text of an error. -/
def message : Error → String
  | rpc text => "RPC error: " ++ text
  | storage text => "Storage error: " ++ text
  | malformed digest reason => "Malformed event in " ++ digest ++ ": " ++ reason
  | config text => "Configuration error: " ++ text
  | subscription text => "Subscription error: " ++ text
  | aborted reason => "Indexer aborted: " ++ reason
  | other text => text

/-- The error may pass by itself: the same page is asked for again. -/
def isTransient : Error → Bool
  | rpc _ => true
  | _ => false

/-- The error came from a store. -/
def isStorage : Error → Bool
  | storage _ => true
  | _ => false

end Error

end LedgerIndex
