/-!
# Doubles from decimal parts

How a decimal number becomes a double: its digits are gathered in a word of 64 bits, and that
word, made a double, is multiplied or divided once by a power of ten.  Both steps round, so the
result may be a neighbour of the double nearest to the number.
-/

namespace LedgerIndex.Decimal

/-- The double nearest to `10 ^ k`. -/
def power (k : Nat) : Float := Float.ofScientific 1 false k

/-- The largest power of ten that is a double. -/
def maxPower : Nat := 308

/-- The double that stands for `x * 10 ^ exponent`; nothing when it is too large.  An exponent
below the smallest power is taken in steps, and zero stays zero whatever the exponent. -/
def scale (x : Float) (exponent : Int) : Option Float :=
  if exponent.natAbs ≤ maxPower then
    if 0 ≤ exponent then
      let y := x * power exponent.natAbs
      if y.isInf then none else some y
    else some (x / power exponent.natAbs)
  else if x == 0 then some x
  else if 0 ≤ exponent then none
  else scale (x / power maxPower) (exponent + maxPower)
termination_by exponent.natAbs
decreasing_by simp only [maxPower] at *; omega

/-- Gathers leading digits in `acc` while it stays below `2 ^ 64`.  Answers the word and how many
digits went into it. -/
def gather (acc : Nat) : List Char → Nat × Nat
  | [] => (acc, 0)
  | c :: rest =>
    let next := acc * 10 + (c.toNat - '0'.toNat)
    if next < UInt64.size then
      let (word, taken) := gather next rest
      (word, taken + 1)
    else (acc, 0)

/-- The double for the number `whole.fraction * 10 ^ exponent`, given by its digits; nothing when
it is too large. -/
def double? (whole fraction : List Char) (exponent : Int) : Option Float :=
  let (high, takenHigh) := gather 0 whole
  let (word, takenLow) := gather high fraction
  scale word.toUInt64.toFloat
    (exponent + ((whole.length - takenHigh : Nat) : Int) - (takenLow : Int))

end LedgerIndex.Decimal
