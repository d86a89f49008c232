import LedgerIndex.Decimal.Shortest
import LedgerIndex.Decimal.Word
import LedgerIndex.Json.Text

/-!
# Paths into JSON columns

How the embedded database looks a field up in a JSON column and compares it with a text.  A path
is a `$` followed by steps.  A label in quotes ends at the next quote, so a field that holds one
leads further.  A label is compared with the member names as they are written in the column,
escapes included.  An index counts from the beginning of an array, or after a `#` from its end.  A
truth value compares as its word, a number as the database prints it: integers of 64 bits in full,
all others as reals with fifteen significant digits.
-/

namespace LedgerIndex.FieldPath

/-- The characters before the first NUL, where the database takes a text to end. -/
def beforeNul (cs : List Char) : List Char := cs.takeWhile (· != '\x00')

/-- The path of a field that is named by a label in quotes, after the `$`. -/
def ofField (field : String) : List Char := beforeNul (['.', '"'] ++ field.toList ++ ['"'])

/-! ## Steps -/

/-- A step of a path. -/
inductive Step where
  | label (name : List Char)
  | index (n : Nat)
  /-- an index that counts from the end of an array -/
  | back (n : Nat)
  deriving DecidableEq, Repr

/-- The number that digits stand for, in 32 bits. -/
def indexOf (digits : List Char) : Nat := Decimal.value digits % UInt32.size

/-- The label after a dot, in quotes or bare, and the rest of the path. -/
def label? : List Char → Option (Step × List Char)
  | '"' :: rest =>
    match rest.span (· != '"') with
    | (name, _ :: rest) => some (.label name, rest)
    | (_, []) => none
  | path =>
    match path.span fun c => c != '.' && c != '[' with
    | ([], _) => none
    | (name, rest) => some (.label name, rest)

/-- The index after a bracket, and the rest of the path. -/
def index? (path : List Char) : Option (Step × List Char) :=
  match path.span Char.isDigit with
  | (d :: ds, ']' :: rest) => some (.index (indexOf (d :: ds)), rest)
  | _ => none

/-- The index after a bracket and a `#`, and the rest of the path. -/
def back? : List Char → Option (Step × List Char)
  | ']' :: rest => some (.back 0, rest)
  | '-' :: rest =>
    match rest.span Char.isDigit with
    | (d :: ds, ']' :: rest) => some (.back (indexOf (d :: ds)), rest)
    | _ => none
  | _ => none

/-- The member whose name is written like the label. -/
def memberWritten? (label : List Char) : List (String × Json) → Option Json
  | [] => none
  | (name, value) :: rest =>
    if Json.escape name = label then some value else memberWritten? label rest

/-- Takes one step down. -/
def Step.down : Step → Json → Option Json
  | label name, .object members => memberWritten? name members
  | index n, .array items => items[n]?
  | back n, .array items => if n ≤ items.length then items[items.length - n]? else none
  | _, _ => none

/-- The next step of a path from a value, and what is left of the path.  Where the value has no
parts of the kind the path is not looked at, an index apart.  An error is the part of the path
that is none. -/
def next? (path : List Char) (v : Json) : Except (List Char) (Option (Step × List Char)) :=
  let orBad (bad : List Char) (found : Option (Step × List Char)) :=
    match found with
    | some found => .ok (some found)
    | none => .error bad
  match path, v with
  | '.' :: rest, .object _ => orBad rest (label? rest)
  | '.' :: _, _ => .ok none
  | '[' :: '#' :: rest, .array _ => orBad path (back? rest)
  | '[' :: '#' :: _, _ => .ok none
  | '[' :: rest, _ => orBad path (index? rest)
  | _, _ => .error path

/-- Follows a path. -/
def follow : Nat → List Char → Json → Except (List Char) (Option Json)
  | _, [], v => .ok (some v)
  | 0, path, _ => .error path
  | fuel + 1, path, v => do
    match ← next? path v with
    | none => return none
    | some (step, rest) =>
      match step.down v with
      | none => return none
      | some v => follow fuel rest v

/-! ## Comparing as text -/

/-- Text of a real as the database prints it: fifteen significant digits, positional from
`0.0001` up to below `10 ^ 15`, otherwise with an exponent of at least two digits. -/
def realText (bits : UInt64) : List Char :=
  let x := Decimal.Binary.ofBits bits
  if x.mantissa = 0 then ['0', '.', '0']
  else
    let d := x.rounded 15
    let ds := digits d.digits
    let point : Int := ds.length + d.exponent
    let sign := if bits.toNat < Nat.pow 2 63 then [] else ['-']
    let e := point - 1
    sign ++
      if e < -4 ∨ 14 < e then
        let exponent := digits e.natAbs
        ds.take 1 ++ '.' :: (if 1 < ds.length then ds.drop 1 else ['0']) ++
          ['e', if 0 ≤ e then '+' else '-'] ++
          List.replicate (2 - exponent.length) '0' ++ exponent
      else if 0 ≤ d.exponent then ds ++ List.replicate d.exponent.natAbs '0' ++ ['.', '0']
      else if 0 < point then ds.take point.natAbs ++ '.' :: ds.drop point.natAbs
      else ['0', '.'] ++ List.replicate point.natAbs '0' ++ ds

/-- The real nearest to an integer, as bits. -/
def realOfInt (i : Int) : UInt64 := (Float.ofInt i).toBits

/-- The text with which a value found in a column compares; none for `null`.  A string counts up
to its first NUL. -/
def compareText : Json → Option String
  | .null => none
  | .string s => some (.ofList (beforeNul s.toList))
  | .number (.int i) =>
    let word : Int := Nat.pow 2 63
    some (.ofList (if -word ≤ i ∧ i < word then intText i else realText (realOfInt i)))
  | .number (.double bits) => some (.ofList (realText bits))
  | v => some v.text

end LedgerIndex.FieldPath
