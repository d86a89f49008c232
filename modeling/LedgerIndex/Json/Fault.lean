/-!
# What can be wrong with a JSON text

A text is read from left to right and the first problem met decides.
-/

namespace LedgerIndex

/-- Why a text could not be taken for a value of the wanted shape. -/
inductive Fault where
  /-- the text ended inside a value, or holds none -/
  | endOfText
  /-- the text is not well formed -/
  | malformed
  /-- the text is well formed so far, and says something else than what was wanted -/
  | mismatch
  deriving DecidableEq, Repr, Inhabited

end LedgerIndex
