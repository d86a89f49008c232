/-!
# Digits

Digits in bases up to sixteen, in either case, and the numbers that runs of them stand for.
-/

namespace LedgerIndex.Digits

/-- The value of a digit. -/
def digit? (base : Nat) (c : Char) : Option Nat :=
  let d :=
    if '0' ≤ c ∧ c ≤ '9' then c.toNat - '0'.toNat
    else if 'a' ≤ c ∧ c ≤ 'f' then c.toNat - 'a'.toNat + 10
    else if 'A' ≤ c ∧ c ≤ 'F' then c.toNat - 'A'.toNat + 10
    else base
  if d < base then some d else none

/-- The number that digits stand for, at least one of them. -/
def number? (base : Nat) : List Char → Option Nat
  | [] => none
  | cs => (cs.mapM (digit? base)).map fun ds => ds.foldl (fun n d => n * base + d) 0

end LedgerIndex.Digits
