import LedgerIndex.Decimal.Digits
import LedgerIndex.Yaml.Text

/-!
# Tags, anchors and directives

A value may bear a tag, which says what it is, and an anchor, by which it can be named again.
Directives in front of a document say which version it follows and what the handles of its tags
stand for.  Tags are addresses: any octet of them may be written as a percent sign and two digits.
-/

namespace LedgerIndex.Yaml

/-- A tag, as octets. -/
structure Tag where
  octets : List UInt8
  deriving DecidableEq, Repr, Inhabited

namespace Tag

/-- The octets of a text. -/
def octetsOf (cs : List Char) : List UInt8 := cs.flatMap String.utf8EncodeChar

/-- The tag with a text. -/
def ofString (s : String) : Tag := ⟨octetsOf s.toList⟩

/-- What the tags of the language itself begin with. -/
def standardHead : String := "tag:yaml.org,2002:"

/-- A tag of the language itself. -/
def standard (name : String) : Tag := ofString (standardHead ++ name)

/-- The name that a tag stands for: its text, without the mark at its beginning. -/
def name? (t : Tag) : Option String :=
  match t.octets with
  | [] => none
  | first :: rest =>
    let octets := if first == '!'.toNat.toUInt8 then rest else first :: rest
    String.fromUTF8? ⟨octets.toArray⟩

end Tag

/-! ## Written tags -/

/-- A tag as it is written: a handle, and what follows it. -/
structure WrittenTag where
  handle : List Char
  rest : List UInt8
  deriving DecidableEq, Repr

/-- The characters that may occur in an address, brackets and commas apart. -/
def isAddressChar (c : Char) : Bool := isNameChar c || ";/?:@&=+$.%!~*'()".toList.contains c

/-- How many octets a character has whose first octet this is. -/
def octetsFrom (first : Nat) : Option Nat :=
  if first < 0x80 then some 1
  else if 0xc0 ≤ first ∧ first < 0xe0 then some 2
  else if 0xe0 ≤ first ∧ first < 0xf0 then some 3
  else if 0xf0 ≤ first ∧ first < 0xf8 then some 4
  else none

/-- Reads the octets of an address.  `pending` is how many of them the last character still needs,
all of which have to be written with percent signs. -/
def readAddress (isEnclosed : Bool) : Nat → List Char → Option (List UInt8 × List Char)
  | pending, '%' :: a :: b :: rest => do
    let octet ← Digits.number? 16 [a, b]
    let pending ←
      match pending with
      | 0 => (octetsFrom octet).map (· - 1)
      | n + 1 => if 0x80 ≤ octet ∧ octet < 0xc0 then some n else none
    let (octets, left) ← readAddress isEnclosed pending rest
    return (octet.toUInt8 :: octets, left)
  | pending, cs =>
    if pending > 0 then none
    else
      match cs with
      | [] => some ([], [])
      | '%' :: _ => none
      | c :: rest =>
        if isAddressChar c || (isEnclosed && ",[]".toList.contains c) then
          (readAddress isEnclosed 0 rest).map fun (octets, left) =>
            (String.utf8EncodeChar c ++ octets, left)
        else some ([], c :: rest)

/-- An address that holds something. -/
def readSomeAddress (isEnclosed : Bool) (cs : List Char) : Option (List UInt8 × List Char) :=
  (readAddress isEnclosed 0 cs).filter fun (_, left) => left.length < cs.length

/-- The octets up to the first that is zero, which ends a tag. -/
def beforeZero (octets : List UInt8) : List UInt8 := octets.takeWhile (· != 0)

/-- Reads on after the mark of a handle: the whole handle and what is left. -/
def readHandle (cs : List Char) : List Char × List Char :=
  let name := cs.takeWhile isNameChar
  match cs.dropWhile isNameChar with
  | '!' :: rest => ('!' :: name ++ ['!'], rest)
  | rest => ('!' :: name, rest)

/-- The text is the handle of a tag: a mark, or a name between two marks. -/
def isHandle (handle : List Char) : Bool :=
  handle == ['!'] || (handle.length > 1 && handle.getLast? == some '!')

/-- Reads on after the mark of a tag.  A tag that is just the mark has no handle. -/
def WrittenTag.read (cs : List Char) : Option (WrittenTag × List Char) :=
  match cs with
  | '<' :: rest => do
    let (octets, rest) ← readSomeAddress true rest
    match rest with
    | '>' :: rest => return (⟨[], beforeZero octets⟩, rest)
    | _ => none
  | cs =>
    let (handle, rest) := readHandle cs
    if handle.length > 1 && isHandle handle then do
      let (octets, rest) ← readSomeAddress false rest
      return (⟨handle, beforeZero octets⟩, rest)
    else do
      let (octets, rest) ← readAddress false 0 rest
      let octets := beforeZero (Tag.octetsOf (handle.drop 1) ++ octets)
      return (if octets.isEmpty then ⟨[], Tag.octetsOf ['!']⟩ else ⟨['!'], octets⟩, rest)

/-- Reads on after the mark of an anchor, or of a place where it is named. -/
def readAnchor (cs : List Char) : Option (String × List Char) :=
  let name := cs.takeWhile isNameChar
  let rest := cs.dropWhile isNameChar
  if !name.isEmpty && (atSpace rest || atAny "?:,]\x7d%@\u0060" rest) then
    some (String.ofList name, rest)
  else none

/-! ## Directives -/

/-- A directive: the version of the language, or what a handle stands for. -/
inductive Directive where
  | version (major minor : Nat)
  | handle (name : List Char) (meaning : List UInt8)
  deriving DecidableEq, Repr

namespace Directive

/-- Reads a number of at most nine digits. -/
def readNumber (cs : List Char) : Option (Nat × List Char) :=
  let digits := cs.takeWhile Char.isDigit
  if digits.length ≤ 9 then
    (Digits.number? 10 digits).map fun n => (n, cs.drop digits.length)
  else none

/-- Reads on after the mark of a directive, to the end of its line. -/
def read (cs : List Char) : Option (Directive × List Char) := do
  let rest := cs.dropWhile isNameChar
  let given := rest.dropWhile isBlank
  if !atSpace rest then none
  else
    match String.ofList (cs.takeWhile isNameChar) with
    | "YAML" =>
      let (major, rest) ← readNumber given
      match rest with
      | '.' :: rest =>
        let (minor, rest) ← readNumber rest
        return (.version major minor, ← endLine rest)
      | _ => none
    | "TAG" =>
      match given with
      | '!' :: rest =>
        let (name, rest) := readHandle rest
        if isHandle name && rest.head?.any isBlank then do
          let (octets, rest) ← readSomeAddress true (rest.dropWhile isBlank)
          if atSpace rest then return (.handle name (beforeZero octets), ← endLine rest) else none
        else none
      | _ => none
    | _ => none

/-- The handles that need no directive. -/
def standardHandles : List (List Char × List UInt8) :=
  [(['!'], Tag.octetsOf ['!']), (['!', '!'], Tag.octetsOf Tag.standardHead.toList)]

/-- What the handles of a document stand for, if its directives agree with each other: there is
one version at most, which is known, and no handle is given a meaning twice. -/
def handles? (directives : List Directive) : Option (List (List Char × List UInt8)) :=
  let versions := directives.filterMap fun d =>
    match d with
    | .version major minor => some (major, minor)
    | .handle _ _ => none
  let given := directives.filterMap fun d =>
    match d with
    | .version _ _ => none
    | .handle name meaning => some (name, meaning)
  if versions.length ≤ 1 && versions.all (fun v => v == (1, 1) || v == (1, 2)) &&
      (given.map (·.1)).eraseDups.length == given.length then
    some (given ++ standardHandles)
  else none

end Directive

/-- The tag that is meant, under the handles of a document. -/
def WrittenTag.resolve (handles : List (List Char × List UInt8)) (t : WrittenTag) : Option Tag :=
  if t.handle.isEmpty then some ⟨t.rest⟩
  else (handles.lookup t.handle).map fun meaning => ⟨meaning ++ t.rest⟩

end LedgerIndex.Yaml
