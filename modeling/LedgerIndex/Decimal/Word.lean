/-!
# Words of 64 bits in decimal

A text is a word when it is decimal digits, possibly after a plus sign, with a value below
`2 ^ 64`.  Leading zeros are allowed, blanks are not.
-/

namespace LedgerIndex.Decimal

/-- The value of a run of decimal digits. -/
def value (ds : List Char) : Nat :=
  ds.foldl (fun n c => n * 10 + (c.toNat - '0'.toNat)) 0

/-- Drops a leading plus sign, once. -/
def dropPlus : List Char → List Char
  | '+' :: rest => rest
  | cs => cs

/-- The word that some characters are. -/
def wordOfChars? (cs : List Char) : Option UInt64 :=
  let ds := dropPlus cs
  if !ds.isEmpty && ds.all Char.isDigit && value ds < UInt64.size then some (.ofNat (value ds))
  else none

/-- The word that a text is. -/
def word? (text : String) : Option UInt64 := wordOfChars? text.toList

end LedgerIndex.Decimal
