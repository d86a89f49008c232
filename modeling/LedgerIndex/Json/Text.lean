import LedgerIndex.Decimal.Shortest
import LedgerIndex.Json.Basic

/-!
# The compact text of a JSON value

No blanks, object members in the order of their names, control characters escaped, all other
characters as they are.  Doubles have the fewest digits that read back as them.
-/

namespace LedgerIndex

/-! ## Numbers -/

/-- Decimal digits of a natural number. -/
def digits (n : Nat) : List Char := Nat.toDigits 10 n

/-- Decimal text of an integer. -/
def intText : Int → List Char
  | .ofNat n => digits n
  | .negSucc n => '-' :: digits (n + 1)

/-- Text of a positive decimal.  Positional, with at least one digit on either side of the point,
from `0.00001` up to below `10 ^ 16`; otherwise with one digit before the point and a signed
exponent. -/
def decimalText (d : Decimal.Numeral) : List Char :=
  let ds := digits d.digits
  let count : Int := ds.length
  /- the number of digits before the point -/
  let point := count + d.exponent
  if 0 ≤ d.exponent ∧ point ≤ 16 then
    ds ++ List.replicate d.exponent.natAbs '0' ++ ['.', '0']
  else if 0 < point ∧ point ≤ 16 then
    ds.take point.natAbs ++ '.' :: ds.drop point.natAbs
  else if -5 < point ∧ point ≤ 0 then
    ['0', '.'] ++ List.replicate point.natAbs '0' ++ ds
  else
    let e := point - 1
    ds.take 1 ++ (if 1 < ds.length then '.' :: ds.drop 1 else []) ++
      ['e', if 0 ≤ e then '+' else '-'] ++ digits e.natAbs

/-- Text of a double, given by its bits. -/
def doubleText (bits : UInt64) : List Char :=
  let x := Decimal.Binary.ofBits bits
  (if bits.toNat < Nat.pow 2 63 then [] else ['-']) ++
    (if x.mantissa = 0 then ['0', '.', '0'] else decimalText x.shortest)

/-- Text of a number. -/
def Number.text : Number → List Char
  | int i => intText i
  | double bits => doubleText bits

namespace Json

/-! ## Strings -/

/-- The hexadecimal digit of a number below sixteen, in lower case. -/
def hexChar (n : Nat) : Char := Nat.digitChar n

/-- A character as it stands between quotes. -/
def escapeChar (c : Char) : List Char :=
  if c = '"' then ['\\', '"']
  else if c = '\\' then ['\\', '\\']
  else if c.toNat < 0x20 then
    if c = '\x08' then ['\\', 'b']
    else if c = '\t' then ['\\', 't']
    else if c = '\n' then ['\\', 'n']
    else if c = '\x0c' then ['\\', 'f']
    else if c = '\r' then ['\\', 'r']
    else ['\\', 'u', '0', '0', hexChar (c.toNat / 16), hexChar (c.toNat % 16)]
  else [c]

/-- A string as it stands between quotes. -/
def escape (s : String) : List Char := s.toList.flatMap escapeChar

/-- A string with its quotes. -/
def quote (s : String) : List Char := '"' :: escape s ++ ['"']

/-! ## Values -/

mutual
/-- The characters of the compact text. -/
def chars : Json → List Char
  | null => ['n', 'u', 'l', 'l']
  | bool true => ['t', 'r', 'u', 'e']
  | bool false => ['f', 'a', 'l', 's', 'e']
  | number n => n.text
  | string s => quote s
  | array [] => ['[', ']']
  | array (item :: rest) => '[' :: chars item ++ charsItems rest
  | object [] => ['\x7b', '\x7d']
  | object ((name, value) :: rest) =>
    '\x7b' :: quote name ++ ':' :: chars value ++ charsMembers rest
/-- The items after the first of an array, up to its bracket. -/
def charsItems : List Json → List Char
  | [] => [']']
  | item :: rest => ',' :: chars item ++ charsItems rest
/-- The members after the first of an object, up to its bracket. -/
def charsMembers : List (String × Json) → List Char
  | [] => ['\x7d']
  | (name, value) :: rest => ',' :: quote name ++ ':' :: chars value ++ charsMembers rest
end

/-- The compact text of a value. -/
def text (v : Json) : String := String.ofList v.chars

/-! ## Text with line breaks -/

/-- A line break followed by two blanks for each open bracket. -/
def newLine (depth : Nat) : List Char := '\n' :: List.replicate (2 * depth) ' '

mutual
/-- The characters of the text with one item or member a line. -/
def charsPretty (depth : Nat) : Json → List Char
  | array (item :: rest) =>
    '[' :: newLine (depth + 1) ++ charsPretty (depth + 1) item ++ prettyItems depth rest
  | object ((name, value) :: rest) =>
    '\x7b' :: newLine (depth + 1) ++ quote name ++ [':', ' '] ++ charsPretty (depth + 1) value ++
      prettyMembers depth rest
  | v => chars v
/-- The items after the first of an array, up to its bracket. -/
def prettyItems (depth : Nat) : List Json → List Char
  | [] => newLine depth ++ [']']
  | item :: rest =>
    ',' :: newLine (depth + 1) ++ charsPretty (depth + 1) item ++ prettyItems depth rest
/-- The members after the first of an object, up to its bracket. -/
def prettyMembers (depth : Nat) : List (String × Json) → List Char
  | [] => newLine depth ++ ['\x7d']
  | (name, value) :: rest =>
    ',' :: newLine (depth + 1) ++ quote name ++ [':', ' '] ++ charsPretty (depth + 1) value ++
      prettyMembers depth rest
end

/-- The text of a value with one item or member a line, indented by two blanks. -/
def pretty (v : Json) : String := String.ofList (v.charsPretty 0)

end Json

end LedgerIndex
