import LedgerIndex.Decimal.Digits

/-!
# Percent signs in addresses

An octet of an address may be written as a percent sign and two digits in base sixteen.  A percent
sign without them stands for itself.
-/

namespace LedgerIndex.App.Percent

/-- The octets that a text stands for. -/
def octets : List Char → List UInt8
  | [] => []
  | '%' :: a :: b :: rest =>
    match Digits.number? 16 [a, b] with
    | some n => n.toUInt8 :: octets rest
    | none => String.utf8EncodeChar '%' ++ octets (a :: b :: rest)
  | c :: rest => String.utf8EncodeChar c ++ octets rest

/-- The text that a text stands for, if its octets make up one. -/
def decode (cs : List Char) : Option String := String.fromUTF8? ⟨(octets cs).toArray⟩

/-- The parameters that are joined by ampersands: names and values as they are written, without
those that are empty. -/
def parameters (cs : List Char) : List (List Char × List Char) :=
  ((cs.splitOn '&').filter (· ≠ [])).map fun p =>
    (p.takeWhile (· != '='), (p.dropWhile (· != '=')).drop 1)

end LedgerIndex.App.Percent
