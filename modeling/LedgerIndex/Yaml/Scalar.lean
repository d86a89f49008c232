import LedgerIndex.Decimal.Digits
import LedgerIndex.Yaml.Text

/-!
# Scalars

A scalar is written plain, in quotes, or as a block of lines.  Here is what each of these ways
stands for: every reader answers the characters that are meant and what is left of the text.
Fuel bounds the recursion: every step takes a character, so the length of the text is enough.
-/

namespace LedgerIndex.Yaml

/-- How a scalar is written. -/
inductive Style where
  | plain
  | singleQuoted
  | doubleQuoted
  | literal
  | folded
  deriving DecidableEq, Repr, Inhabited

/-- A scalar: how it is written and what it says. -/
structure Scalar where
  style : Style
  text : String
  deriving DecidableEq, Repr, Inhabited

namespace Scalar

/-! ## Quoted scalars -/

/-- Reads the gap in a quoted scalar.  No line of it may look like one between documents. -/
def quotedGap (cs : List Char) : Option (List Char × List Char) := do
  let (gap, column, rest) ← Gap.read 0 cs
  if column == some 0 && atDivider rest then none else some (gap.text, rest)

/-- Reads on after a single quote. -/
def readSingle : Nat → List Char → Option (List Char × List Char)
  | 0, _ | _, [] => none
  | fuel + 1, '\'' :: '\'' :: rest =>
    (readSingle fuel rest).map fun (text, left) => ('\'' :: text, left)
  | _ + 1, '\'' :: rest => some ([], rest)
  | fuel + 1, c :: rest => do
    let (first, rest) ← if isSpace c then quotedGap (c :: rest) else some ([c], rest)
    let (text, left) ← readSingle fuel rest
    return (first ++ text, left)

/-- The characters that one character after a backslash stands for. -/
def escapes : List (Char × Char) :=
  [ ('0', '\x00'), ('a', '\x07'), ('b', '\x08'), ('t', '\t'), ('\t', '\t'), ('n', '\n'),
    ('v', '\x0b'), ('f', '\x0c'), ('r', '\r'), ('e', '\x1b'), (' ', ' '), ('"', '"'), ('/', '/'),
    ('\\', '\\'), ('N', '\u0085'), ('_', '\u00a0'), ('L', '\u2028'), ('P', '\u2029') ]

/-- How many digits of a code point follow a character after a backslash. -/
def escapeLengths : List (Char × Nat) := [('x', 2), ('u', 4), ('U', 8)]

/-- The character with a code point in base sixteen. -/
def codePoint? (digits : List Char) : Option Char := do
  let n ← Digits.number? 16 digits
  if h : n.isValidChar then some (Char.ofNatAux n h) else none

/-- Reads what follows a backslash.  At the end of a line it hides this end. -/
def readEscape : List Char → Option (List Char × List Char)
  | [] => none
  | c :: rest =>
    if isBreak c then do
      let (breaks, column, rest) ← Gap.readLines 0 0 rest
      if column == 0 && atDivider rest then none
      else some ((Gap.lines none breaks).text, rest)
    else
      match escapeLengths.lookup c with
      | some length =>
        if (rest.take length).length < length then none
        else (codePoint? (rest.take length)).map fun c => ([c], rest.drop length)
      | none => (escapes.lookup c).map fun c => ([c], rest)

/-- Reads on after a double quote. -/
def readDouble : Nat → List Char → Option (List Char × List Char)
  | 0, _ | _, [] => none
  | _ + 1, '"' :: rest => some ([], rest)
  | fuel + 1, c :: rest => do
    let (first, rest) ←
      if c == '\\' then readEscape rest
      else if isSpace c then quotedGap (c :: rest)
      else some ([c], rest)
    let (text, left) ← readDouble fuel rest
    return (first ++ text, left)

/-! ## Plain scalars -/

/-- A plain scalar may begin here. -/
def startsPlain (inBrackets : Bool) : List Char → Bool
  | [] => false
  | '-' :: rest => !rest.head?.any isBlank
  | '?' :: rest | ':' :: rest => !inBrackets && !atSpace rest
  | c :: _ => !(isSpace c || isBracket c || "#&*!|>'\"%@\u0060".toList.contains c)

/-- Reads the part of a plain scalar before the next blank.  It ends before a colon that ends a
key, and between brackets before whatever divides collections, but a colon may not stand right
before such a divider. -/
def plainPart (inBrackets : Bool) : List Char → Option (List Char × List Char)
  | [] => some ([], [])
  | c :: rest =>
    if isSpace c then some ([], c :: rest)
    else if inBrackets && c == ':' && atAny ",?[]\x7b\x7d" rest then none
    else if (c == ':' && atSpace rest) || (inBrackets && isBracket c) then some ([], c :: rest)
    else (plainPart inBrackets rest).map fun (text, left) => (c :: text, left)

/-- Reads a plain scalar, which goes on in further lines that are indented by at least `least`:
its text, whether the space after it reaches into another line, and what is left.  At the
beginning of a line a divider of documents ends the scalar. -/
def readPlain (inBrackets : Bool) (least : Nat) :
    Nat → Bool → List Char → Option (List Char × Bool × List Char)
  | 0, _, _ => none
  | fuel + 1, atStart, cs => do
    if (atStart && atDivider cs) || cs.head? == some '#' then return ([], false, cs)
    let (part, rest) ← plainPart inBrackets cs
    if rest.isEmpty || !atSpace rest then return (part, false, rest)
    let (gap, column, rest) ← Gap.read least rest
    if !inBrackets && column.any (· < least) then return (part, gap.isFold, rest)
    let (more, isFolded, left) ← readPlain inBrackets least fuel (column == some 0) rest
    if more.isEmpty then return (part, gap.isFold, left)
    return (part ++ gap.text ++ more, isFolded, left)

/-! ## Blocks of lines -/

/-- What happens to the line ends at the end of a block. -/
inductive Chomping where
  | strip
  | clip
  | keep
  deriving DecidableEq, Repr

/-- How a block of lines is announced: what happens at its end, and how far it is indented, if
that is said. -/
structure BlockHead where
  chomping : Chomping
  indent : Option Nat
  deriving Repr

namespace BlockHead

/-- The sign of a way to end a block. -/
def chomping? : Char → Option Chomping
  | '-' => some .strip
  | '+' => some .keep
  | _ => none

/-- Reads an optional sign. -/
def readChomping : List Char → Option Chomping × List Char
  | [] => (none, [])
  | c :: rest =>
    match chomping? c with
    | some found => (some found, rest)
    | none => (none, c :: rest)

/-- Reads an optional digit, which may not be zero. -/
def readIndent : List Char → Option (Option Nat × List Char)
  | [] => some (none, [])
  | c :: rest =>
    match Digits.digit? 10 c with
    | some 0 => none
    | some d => some (some d, rest)
    | none => some (none, c :: rest)

/-- Reads the head of a block, in which the sign and the digit may stand in any order. -/
def read (cs : List Char) : Option (BlockHead × List Char) := do
  let (before, rest) := readChomping cs
  let (indent, rest) ← readIndent rest
  let (chomping, rest) :=
    match before, indent with
    | none, some _ => readChomping rest
    | _, _ => (before, rest)
  return (⟨chomping.getD .clip, indent⟩, ← endLine rest)

end BlockHead

/-- Reads indentation up to column `indent`, or as far as it goes if that is zero, and lines that
hold nothing else: the ends of these lines, the furthest column, the column that is reached, and
what is left. -/
def blockIndent (indent : Nat) : Nat → Nat → List Char → Option (List Char × Nat × Nat × List Char)
  | furthest, column, [] => some ([], max furthest column, column, [])
  | furthest, column, c :: rest =>
    let within := indent == 0 || column < indent
    if within && c == ' ' then blockIndent indent furthest (column + 1) rest
    else if within && c == '\t' then none
    else if isBreak c then
      (blockIndent indent (max furthest column) 0 rest).map fun (breaks, found) =>
        (c :: breaks, found)
    else some ([], max furthest column, column, c :: rest)

/-- What the ends of lines between two lines of a block stand for. -/
def blockBreaks (isFolded : Bool) (last : List Char) (others : List Char) : List Char :=
  if isFolded && last == ['\n'] then if others.isEmpty then [' '] else others
  else last ++ others

/-- Reads the lines of a block with the given indentation.  `last` is the end of the line before,
`others` are the ends of empty lines after it, and `atBlank` says that the line before began
with a blank, so that it is not folded. -/
def blockLines (isFolded : Bool) (chomping : Chomping) (indent : Nat) :
    Nat → List Char → List Char → Bool → Nat → List Char → Option (List Char × List Char)
  | 0, _, _, _, _, _ => none
  | fuel + 1, last, others, atBlank, column, cs => do
    if column != indent || cs.isEmpty then
      let ends :=
        match chomping with
        | .strip => []
        | .clip => last
        | .keep => last ++ others
      return (ends, cs)
    else
      let startsBlank := cs.head?.any isBlank
      let line := cs.takeWhile fun c => !isBreak c
      let rest := cs.drop line.length
      let (breaks, _, column, left) ← blockIndent indent 0 0 (rest.drop 1)
      let (text, left) ←
        blockLines isFolded chomping indent fuel (rest.take 1) breaks startsBlank column left
      let first := blockBreaks (isFolded && !atBlank && !startsBlank) last others ++ line
      return (first ++ text, left)

/-- Reads on after the sign of a block, in a collection whose indentation is one less than
`least`.  The first line that holds something tells the indentation of the block, if its head
does not. -/
def readBlock (isFolded : Bool) (least : Nat) (cs : List Char) :
    Option (List Char × List Char) := do
  let (head, rest) ← BlockHead.read cs
  let said := (head.indent.map fun n => (least - 1) + n).getD 0
  let (breaks, furthest, column, rest) ← blockIndent said 0 0 rest
  let indent := if said = 0 then max (max furthest least) 1 else said
  blockLines isFolded head.chomping indent (rest.length + 1) [] breaks false column rest

end Scalar

end LedgerIndex.Yaml
