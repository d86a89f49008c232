import LedgerIndex.Decimal.Double
import LedgerIndex.Decimal.Word
import LedgerIndex.Json.Reading

/-!
# Reading a JSON text

The reader makes one pass over the characters.  It never fails: where the text stops being JSON
the reading ends in a break.  Fuel bounds the recursion: a bracket takes one character and two
steps, so twice the length of the text is enough.
-/

namespace LedgerIndex.Json.Reader

/-! ## Blanks and words -/

/-- Blanks between tokens: space, line feed, carriage return, tab. -/
def isBlank (c : Char) : Bool :=
  c = ' ' || c = '\n' || c = '\r' || c = '\t'

/-- Drops leading blanks. -/
def skipBlank (cs : List Char) : List Char := cs.dropWhile isBlank

/-- A reading together with the text after it; no text where the reading is broken. -/
abbrev Step := Reading × Option (List Char)

/-- The text breaks here in the same way for all. -/
def stop (fault : Fault) : Step := (.broken fault fault, none)

/-- Reads the given letters. -/
def readWord (value : Reading) : List Char → List Char → Step
  | [], rest => (value, some rest)
  | _ :: _, [] => stop .endOfText
  | w :: word, c :: rest => if w = c then readWord value word rest else stop .malformed

/-! ## Strings -/

/-- A character of a string, or half a surrogate pair that an escape stands for. -/
inductive Piece where
  | char (c : Char)
  | half (unit : Nat)
  deriving DecidableEq, Repr

/-- The value of a hexadecimal digit. -/
def hexDigit? (c : Char) : Option Nat :=
  if '0' ≤ c ∧ c ≤ '9' then some (c.toNat - '0'.toNat)
  else if 'a' ≤ c ∧ c ≤ 'f' then some (c.toNat - 'a'.toNat + 10)
  else if 'A' ≤ c ∧ c ≤ 'F' then some (c.toNat - 'A'.toNat + 10)
  else none

/-- Bytes that a text takes in UTF-8. -/
def byteCount (cs : List Char) : Nat := cs.foldl (fun n c => n + c.utf8Size) 0

/-- Reads four hexadecimal digits.  With fewer than four bytes left the text counts as ended. -/
def hex4 : List Char → Except Fault (Nat × List Char)
  | a :: b :: c :: d :: rest =>
    match hexDigit? a, hexDigit? b, hexDigit? c, hexDigit? d with
    | some a, some b, some c, some d => .ok (((a * 16 + b) * 16 + c) * 16 + d, rest)
    | _, _, _, _ => .error .malformed
  | cs => if byteCount cs < 4 then .error .endOfText else .error .malformed

/-- The unit is half a surrogate pair. -/
def isHalf (unit : Nat) : Bool := 0xD800 ≤ unit && unit ≤ 0xDFFF

/-- What a backslash and the letter after it stand for, `u` apart. -/
def escape? : Char → Option Char
  | '"' => some '"'
  | '\\' => some '\\'
  | '/' => some '/'
  | 'b' => some '\x08'
  | 'f' => some '\x0c'
  | 'n' => some '\n'
  | 'r' => some '\r'
  | 't' => some '\t'
  | _ => none

/-- Reads the characters of a string up to its closing quote. -/
def pieces : Nat → List Char → List Piece × Except Fault (List Char)
  | 0, _ => ([], .error .endOfText)
  | _, [] => ([], .error .endOfText)
  | _, '"' :: rest => ([], .ok rest)
  | _, ['\\'] => ([], .error .endOfText)
  | fuel + 1, '\\' :: 'u' :: rest =>
    match hex4 rest with
    | .error fault => ([], .error fault)
    | .ok (unit, rest) =>
      let (more, ending) := pieces fuel rest
      ((if isHalf unit then .half unit else .char (.ofNat unit)) :: more, ending)
  | fuel + 1, '\\' :: c :: rest =>
    match escape? c with
    | none => ([], .error .malformed)
    | some c =>
      let (more, ending) := pieces fuel rest
      (.char c :: more, ending)
  | fuel + 1, c :: rest =>
    if c.toNat < 0x20 then ([], .error .malformed)
    else
      let (more, ending) := pieces fuel rest
      (.char c :: more, ending)

/-- Joins the halves of surrogate pairs.  A half without its partner is malformed, unless the text
broke right after a first half: then `atEnd` says what is wrong. -/
def join (atEnd : Fault) : List Piece → Except Fault (List Char)
  | [] => .ok []
  | .char c :: rest => (join atEnd rest).map (c :: ·)
  | .half high :: rest =>
    if 0xDC00 ≤ high then .error .malformed
    else
      match rest with
      | [] => .error atEnd
      | .half low :: rest =>
        if low < 0xDC00 then .error .malformed
        else (join atEnd rest).map
          (.ofNat (0x10000 + (high - 0xD800) * 0x400 + (low - 0xDC00)) :: ·)
      | .char _ :: _ => .error .malformed

/-- Reads a string after its opening quote: what it holds, and the text after it. -/
def readString (cs : List Char) : Except Fault String × Except Fault (List Char) :=
  match pieces (cs.length + 1) cs with
  | (found, .ok rest) => ((join .malformed found).map String.ofList, .ok rest)
  | (found, .error fault) =>
    (match join fault found with
      | .ok _ => .error fault
      | .error earlier => .error earlier,
      .error fault)

/-! ## Numbers -/

/-- The number written with these parts.  An integer that fits 64 bits, signed or unsigned, and is
not minus zero stays an integer.  The double of a zero keeps the sign. -/
def number? (negative : Bool) (whole : List Char) (fraction exponent : Option (List Char))
    (exponentNegative : Bool) : Option Number :=
  let word := Decimal.value whole
  let integral := fraction.isNone && exponent.isNone
  if integral && !negative && word < UInt64.size then some (.int word)
  else if integral && negative && 0 < word && word ≤ Nat.pow 2 63 then some (.int (-word))
  else if Decimal.value (whole ++ fraction.getD []) = 0 then
    some (if negative then .minusZero else .double 0)
  else
    let e : Int := ((exponent.map Decimal.value).getD 0 : Nat)
    (Decimal.double? whole (fraction.getD []) (if exponentNegative then -e else e)).map
      fun x => .ofFloat (if negative then -x else x)

/-- A number breaks off here: one who keeps it is told that the text ended when it did, one who
skips it just that it is malformed. -/
def stopNumber (rest : List Char) : Step :=
  (.broken (if rest.isEmpty then .endOfText else .malformed) .malformed, none)

/-- Reads the exponent of a number, if there is one. -/
def readExponent (negative : Bool) (whole : List Char) (fraction : Option (List Char))
    (cs : List Char) : Step :=
  let finish (exponentNegative : Bool) (cs : List Char) : Step :=
    match cs.span Char.isDigit with
    | ([], rest) => stopNumber rest
    | (ds, rest) =>
      (.number (number? negative whole fraction (some ds) exponentNegative), some rest)
  match cs with
  | e :: rest =>
    if e = 'e' || e = 'E' then
      match rest with
      | '+' :: rest => finish false rest
      | '-' :: rest => finish true rest
      | rest => finish false rest
    else (.number (number? negative whole fraction none false), some cs)
  | [] => (.number (number? negative whole fraction none false), some cs)

/-- Reads a number after its sign. -/
def readNumber (negative : Bool) (cs : List Char) : Step :=
  match cs.span Char.isDigit with
  | ([], rest) => stopNumber rest
  | ('0' :: _ :: _, _) => stop .malformed
  | (whole, '.' :: rest) =>
    match rest.span Char.isDigit with
    | ([], rest) => stopNumber rest
    | (fraction, rest) => readExponent negative whole (some fraction) rest
  | (whole, rest) => readExponent negative whole none rest

/-! ## Values -/

mutual
/-- Reads one value. -/
def readValue : Nat → List Char → Step
  | 0, _ => stop .endOfText
  | fuel + 1, cs =>
    match skipBlank cs with
    | [] => stop .endOfText
    | 'n' :: rest => readWord .null ['u', 'l', 'l'] rest
    | 't' :: rest => readWord (.bool true) ['r', 'u', 'e'] rest
    | 'f' :: rest => readWord (.bool false) ['a', 'l', 's', 'e'] rest
    | '"' :: rest =>
      match readString rest with
      | (text, .ok rest) => (.string text, some rest)
      | (text, .error fault) =>
        (.broken (match text with
          | .ok _ => fault
          | .error earlier => earlier) fault, none)
    | '[' :: rest =>
      match skipBlank rest with
      | ']' :: rest => (.array [] .closed, some rest)
      | rest =>
        let (items, ending, rest) := readItems fuel rest
        (.array items ending, rest)
    | '\x7b' :: rest =>
      match skipBlank rest with
      | '\x7d' :: rest => (.object [] .closed, some rest)
      | rest =>
        let (members, ending, rest) := readMembers fuel rest
        (.object members ending, rest)
    | '-' :: rest => readNumber true rest
    | c :: rest => if c.isDigit then readNumber false (c :: rest) else stop .malformed
/-- Reads the items of an array from the start of an item. -/
def readItems : Nat → List Char → List Reading × Ending × Option (List Char)
  | 0, _ => ([], .broken .endOfText .endOfText, none)
  | fuel + 1, cs =>
    match readValue fuel cs with
    | (item, none) => ([item], .broken .endOfText .endOfText, none)
    | (item, some rest) =>
      match skipBlank rest with
      | ',' :: rest =>
        let (items, ending, rest) := readItems fuel rest
        (item :: items, ending, rest)
      | ']' :: rest => ([item], .closed, some rest)
      | [] => ([item], .broken .endOfText .endOfText, none)
      | _ => ([item], .broken .malformed .malformed, none)
/-- Reads the members of an object from the start of a name.  A name without a colon after it is
kept with a broken value, since what is wrong with the name is seen first. -/
def readMembers :
    Nat → List Char → List (Except Fault String × Reading) × Ending × Option (List Char)
  | 0, _ => ([], .broken .endOfText .endOfText, none)
  | fuel + 1, cs =>
    match skipBlank cs with
    | '"' :: rest =>
      match readString rest with
      | (name, .error fault) =>
        ([], .broken (match name with
          | .ok _ => fault
          | .error earlier => earlier) fault, none)
      | (name, .ok rest) =>
        match skipBlank rest with
        | ':' :: rest =>
          match readValue fuel rest with
          | (value, none) => ([(name, value)], .broken .endOfText .endOfText, none)
          | (value, some rest) =>
            match skipBlank rest with
            | ',' :: rest =>
              let (members, ending, rest) := readMembers fuel rest
              ((name, value) :: members, ending, rest)
            | '\x7d' :: rest => ([(name, value)], .closed, some rest)
            | [] => ([(name, value)], .broken .endOfText .endOfText, none)
            | _ => ([(name, value)], .broken .malformed .malformed, none)
        | rest =>
          let fault := if rest.isEmpty then Fault.endOfText else .malformed
          ([(name, .broken fault fault)], .broken fault fault, none)
    | [] => ([], .broken .endOfText .endOfText, none)
    | _ => ([], .broken .malformed .malformed, none)
end

end Json.Reader

/-! ## Documents -/

/-- A text read to its end: one value, and whether only blanks follow it. -/
structure Document where
  value : Reading
  tail : Except Fault Unit

namespace Document

/-- Reads a text that is to hold one value. -/
def read (text : String) : Document :=
  let cs := text.toList
  match Json.Reader.readValue (2 * cs.length + 2) cs with
  | (value, none) => ⟨value, .ok ()⟩
  | (value, some rest) =>
    ⟨value, if (Json.Reader.skipBlank rest).isEmpty then .ok () else .error .malformed⟩

/-- What a document holds for one who looks for something of his own shape.  The text after the
value is looked at last. -/
def decode (take : Reading → Except Fault α) (d : Document) : Except Fault α := do
  let found ← take d.value
  d.tail
  return found

end Document

/-- The most brackets that may be open at once in a value that is kept. -/
def Json.maxDepth : Nat := 127

/-- The value that a text holds. -/
def Json.parse (text : String) : Except Fault Json :=
  (Document.read text).decode (Reading.json Json.maxDepth)

end LedgerIndex
