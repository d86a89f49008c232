/-!
# The text of a YAML document

Which characters may occur, which of them end a line, and what the space between two parts of a
scalar stands for.  Before a text is looked at further its lines are made to end the same way;
only the separators of lines and of paragraphs stay what they are, since a scalar keeps them.
-/

namespace LedgerIndex.Yaml

/-! ## Characters -/

/-- The character may occur in a text. -/
def isReadable (c : Char) : Bool :=
  c == '\t' || c == '\n' || c == '\r' || (' ' ≤ c && c ≤ '~') || c == '\u0085' ||
    ('\u00a0' ≤ c && c != '\ufffe' && c != '\uffff')

/-- The mark of a byte order, which is passed over at the beginning of a line. -/
def byteOrderMark : Char := '\ufeff'

/-- Ends every line in one of three ways. -/
def unifyBreaks : List Char → List Char
  | '\r' :: '\n' :: rest => '\n' :: unifyBreaks rest
  | '\r' :: rest | '\u0085' :: rest => '\n' :: unifyBreaks rest
  | c :: rest => c :: unifyBreaks rest
  | [] => []

/-- The character is a space or a tab. -/
def isBlank (c : Char) : Bool := c == ' ' || c == '\t'

/-- The character ends a line. -/
def isBreak (c : Char) : Bool := c == '\n' || c == '\u2028' || c == '\u2029'

/-- The character is a blank or ends a line. -/
def isSpace (c : Char) : Bool := isBlank c || isBreak c

/-- The character may occur in a name. -/
def isNameChar (c : Char) : Bool := c.isAlphanum || c == '_' || c == '-'

/-- The characters that divide collections in brackets. -/
def isBracket (c : Char) : Bool := ",[]\x7b\x7d".toList.contains c

/-- The line or the text ends here. -/
def atBreak : List Char → Bool
  | [] => true
  | c :: _ => isBreak c

/-- A blank follows, or the line or the text ends here. -/
def atSpace : List Char → Bool
  | [] => true
  | c :: _ => isSpace c

/-- The text goes on with one of the characters. -/
def atAny (chars : String) : List Char → Bool
  | [] => false
  | c :: _ => chars.toList.contains c

/-- A line that begins like this divides documents. -/
def atDivider : List Char → Bool
  | '-' :: '-' :: '-' :: rest | '.' :: '.' :: '.' :: rest => atSpace rest
  | _ => false

/-! ## The ends of lines -/

/-- Skips blanks and a comment to the end of a line, in which nothing else may follow. -/
def endLine (cs : List Char) : Option (List Char) :=
  let rest := cs.dropWhile isBlank
  let rest := if rest.head? == some '#' then rest.dropWhile fun c => !isBreak c else rest
  if atBreak rest then some (rest.drop 1) else none

/-! ## Gaps -/

/-- What stands between two parts of a scalar: blanks, or the end of a line and maybe further
lines with nothing but blanks.  The end of the first line is missing where a backslash hides it. -/
inductive Gap where
  | blanks (chars : List Char)
  | lines (first : Option Char) (others : List Char)

namespace Gap

/-- What a gap stands for: blanks for themselves, a single line feed for a space.  Of more line
ends the first is dropped if it is a line feed. -/
def text : Gap → List Char
  | blanks chars => chars
  | lines (some '\n') [] => [' ']
  | lines (some '\n') others => others
  | lines first others => first.toList ++ others

/-- The gap reaches into another line. -/
def isFold : Gap → Bool
  | blanks _ => false
  | lines _ _ => true

/-- Reads the further lines of a gap from a column on: their ends, the column that is reached,
and what is left.  A tab may not stand before column `least`. -/
def readLines (least : Nat) : Nat → List Char → Option (List Char × Nat × List Char)
  | column, [] => some ([], column, [])
  | column, c :: rest =>
    if isBreak c then
      (readLines least 0 rest).map fun (breaks, found) => (c :: breaks, found)
    else if c == '\t' && column < least then none
    else if isBlank c then readLines least (column + 1) rest
    else some ([], column, c :: rest)

/-- Reads a gap: what it is, the column that is reached if it ends in another line, and what is
left. -/
def read (least : Nat) (cs : List Char) : Option (Gap × Option Nat × List Char) :=
  match cs.dropWhile isBlank with
  | c :: rest =>
    if isBreak c then
      (readLines least 0 rest).map fun (breaks, column, rest) =>
        (lines (some c) breaks, some column, rest)
    else some (blanks (cs.takeWhile isBlank), none, c :: rest)
  | [] => some (blanks (cs.takeWhile isBlank), none, [])

end Gap

end LedgerIndex.Yaml
