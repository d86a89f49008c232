import LedgerIndex.Yaml.Scalar
import LedgerIndex.Yaml.Tag

/-!
# The tokens of a YAML text

A text is cut into tokens: scalars, tags and anchors, the signs that are written, and the
beginnings and ends of blocks that only indentation tells.  Whether a value is the key of an entry
is known only when a colon follows it.  Until then its place is remembered, so that the sign of
the key and the beginning of the mapping can be put in front of it.
-/

namespace LedgerIndex.Yaml

/-- A token. -/
inductive Token where
  | directive (d : Directive)
  | documentStart
  | documentEnd
  | blockSequence
  | blockMapping
  | blockEnd
  | item
  | key
  | value
  | openSequence
  | closeSequence
  | openMapping
  | closeMapping
  | comma
  | anchor (name : String)
  | reference (name : String)
  | tag (t : WrittenTag)
  | scalar (s : Scalar)
  deriving DecidableEq, Repr

/-- A place in a text. -/
structure Place where
  index : Nat
  line : Nat
  column : Nat
  deriving DecidableEq, Repr, Inhabited

namespace Place

/-- The place behind a character. -/
def next (p : Place) (c : Char) : Place :=
  if isBreak c then ⟨p.index + 1, p.line + 1, 0⟩ else ⟨p.index + 1, p.line, p.column + 1⟩

/-- The place behind some characters. -/
def after (p : Place) (cs : List Char) : Place := cs.foldl next p

end Place

/-- A token that turns out to begin a key if a colon follows: how many tokens stand before it, and
where it stands.  In a mapping in block form a colon has to follow. -/
structure KeyStart where
  before : Nat
  place : Place
  isRequired : Bool
  deriving Repr

/-- The furthest that the colon may be from the beginning of a key. -/
def KeyStart.reach : Nat := 1024

/-- A text while it is cut into tokens. -/
structure Lexing where
  rest : List Char
  place : Place
  /-- the tokens so far, the last of them first -/
  found : List Token
  count : Nat
  /-- the columns of the blocks that are open, the innermost first -/
  blocks : List Nat
  /-- a key may begin here -/
  allowsKey : Bool
  /-- what may be the key of the block -/
  blockKey : Option KeyStart
  /-- what may be a key between each of the open brackets, the innermost first -/
  innerKeys : List (Option KeyStart)
  deriving Inhabited

namespace Lexing

/-- A text of which nothing is cut yet. -/
def start (cs : List Char) : Lexing := ⟨cs, ⟨0, 0, 0⟩, [], 0, [], true, none, []⟩

/-! ## Places -/

/-- The place is between brackets. -/
def inBrackets (s : Lexing) : Bool := !s.innerKeys.isEmpty

/-- Goes on to what is left. -/
def moveTo (s : Lexing) (rest : List Char) : Lexing :=
  { s with rest, place := s.place.after (s.rest.take (s.rest.length - rest.length)) }

/-- The least indentation of a value in the innermost block. -/
def least (s : Lexing) : Nat := (s.blocks.head?.map (· + 1)).getD 0

/-! ## Tokens -/

/-- Adds a token. -/
def push (s : Lexing) (t : Token) : Lexing := { s with found := t :: s.found, count := s.count + 1 }

/-- Adds a token of which only the first `before` tokens stand in front. -/
def insert (s : Lexing) (before : Nat) (t : Token) : Lexing :=
  let later := s.found.take (s.count - before)
  let earlier := s.found.drop (s.count - before)
  { s with found := later ++ t :: earlier, count := s.count + 1 }

/-! ## Blocks -/

/-- Closes the blocks that are indented further than a column; between brackets none ends. -/
def closeBlocks (s : Lexing) (isClosed : Nat → Bool) : Lexing :=
  if s.inBrackets then s
  else
    let closed := s.blocks.takeWhile isClosed
    { s with
      blocks := s.blocks.drop closed.length
      found := closed.map (fun _ => .blockEnd) ++ s.found
      count := s.count + closed.length }

/-- Begins a block at a column, in front of a token, unless it has begun. -/
def openBlock (s : Lexing) (column before : Nat) (t : Token) : Lexing :=
  if !s.inBrackets && s.blocks.head?.all (· < column) then
    { s.insert before t with blocks := column :: s.blocks }
  else s

/-! ## Keys -/

/-- What may be the key that a colon here would end. -/
def lastKey (s : Lexing) : Option KeyStart := s.innerKeys.head?.getD s.blockKey

/-- Puts something in the place of what may be the key. -/
def setKey (s : Lexing) (key : Option KeyStart) : Lexing :=
  match s.innerKeys with
  | _ :: outer => { s with innerKeys := key :: outer }
  | [] => { s with blockKey := key }

/-- What may be a key is none after all. -/
def dropKey (s : Lexing) : Option Lexing :=
  if s.lastKey.any (·.isRequired) then none else some (s.setKey none)

/-- Something that may be a key begins here. -/
def startKey (s : Lexing) : Option Lexing :=
  if s.allowsKey then
    let isRequired := !s.inBrackets && s.blocks.head? == some s.place.column
    s.dropKey.map fun s => s.setKey (some ⟨s.count, s.place, isRequired⟩)
  else some s

/-- The place is too far for a colon that ends the key. -/
def isTooFar (s : Lexing) (k : KeyStart) : Bool :=
  k.place.line < s.place.line || k.place.index + KeyStart.reach < s.place.index

/-- Gives up what is no key any more. -/
def dropOldKeys (s : Lexing) : Option Lexing :=
  let isOld (key : Option KeyStart) := key.any s.isTooFar
  let keys := s.blockKey :: s.innerKeys
  if keys.any fun key => isOld key && key.any (·.isRequired) then none
  else
    let kept := keys.map fun key => if isOld key then none else key
    some { s with blockKey := kept.head?.getD none, innerKeys := kept.drop 1 }

/-! ## Space between tokens -/

/-- Skips blanks, comments and the ends of lines.  Where a key may begin a tab is no blank. -/
def skipSpace (inBrackets : Bool) : Bool → Bool → Bool → List Char → Bool × List Char
  | allowsKey, _, _, [] => (allowsKey, [])
  | allowsKey, atStart, inComment, c :: rest =>
    if isBreak c then skipSpace inBrackets (allowsKey || !inBrackets) true false rest
    else if inComment then skipSpace inBrackets allowsKey false true rest
    else if (c == byteOrderMark && atStart) || c == ' ' ||
        (c == '\t' && (inBrackets || !allowsKey)) then
      skipSpace inBrackets allowsKey false false rest
    else if c == '#' then skipSpace inBrackets allowsKey false true rest
    else (allowsKey, c :: rest)

/-- Goes on to the next token, closing what ends before it. -/
def toToken (s : Lexing) : Option Lexing := do
  let (allowsKey, rest) :=
    skipSpace s.inBrackets s.allowsKey (s.place.column == 0) false s.rest
  let s ← { s.moveTo rest with allowsKey }.dropOldKeys
  return s.closeBlocks (s.place.column < ·)

/-! ## Signs -/

/-- Closes all blocks, at something that divides documents. -/
def leaveDocument (s : Lexing) : Option Lexing :=
  (s.closeBlocks fun _ => true).dropKey.map fun s => { s with allowsKey := false }

/-- A bracket that opens a collection. -/
def openBracket (s : Lexing) (t : Token) (rest : List Char) : Option Lexing := do
  let s ← s.startKey
  return { (s.moveTo rest).push t with innerKeys := none :: s.innerKeys, allowsKey := true }

/-- A bracket that closes a collection. -/
def closeBracket (s : Lexing) (t : Token) (rest : List Char) : Option Lexing := do
  let s ← s.dropKey
  return { (s.moveTo rest).push t with innerKeys := s.innerKeys.drop 1, allowsKey := false }

/-- A comma. -/
def comma (s : Lexing) (rest : List Char) : Option Lexing := do
  let s ← s.dropKey
  return { (s.moveTo rest).push .comma with allowsKey := true }

/-- Begins a block, if need be, with a sign that stands here. -/
def blockHere (s : Lexing) (t : Token) : Option Lexing :=
  if s.inBrackets then some s
  else if s.allowsKey then some (s.openBlock s.place.column s.count t)
  else none

/-- The dash of an item. -/
def item (s : Lexing) (rest : List Char) : Option Lexing := do
  let s ← (← s.blockHere .blockSequence).dropKey
  return { (s.moveTo rest).push .item with allowsKey := true }

/-- The sign of a key. -/
def key (s : Lexing) (rest : List Char) : Option Lexing := do
  let s ← (← s.blockHere .blockMapping).dropKey
  return { (s.moveTo rest).push .key with allowsKey := !s.inBrackets }

/-- The colon before a value. -/
def value (s : Lexing) (rest : List Char) : Option Lexing := do
  match s.lastKey with
  | some k =>
    let s := (s.insert k.before .key).openBlock k.place.column k.before .blockMapping
    let s := s.setKey none
    return { (s.moveTo rest).push .value with allowsKey := false }
  | none =>
    let s ← s.blockHere .blockMapping
    return { (s.moveTo rest).push .value with allowsKey := !s.inBrackets }

/-- A token that may be a key, or stand in front of one. -/
def name (s : Lexing) (t : Token) (rest : List Char) : Option Lexing := do
  let s ← s.startKey
  return { (s.moveTo rest).push t with allowsKey := false }

/-! ## Values -/

/-- An anchor, or a place where it is named. -/
def label (s : Lexing) (make : String → Token) (cs : List Char) : Option Lexing := do
  let (name, rest) ← readAnchor cs
  s.name (make name) rest

/-- A tag, which has to end in a blank, or before a comma between brackets. -/
def writtenTag (s : Lexing) (cs : List Char) : Option Lexing := do
  let (t, rest) ← WrittenTag.read cs
  if atSpace rest || (s.inBrackets && rest.head? == some ',') then s.name (.tag t) rest else none

/-- A scalar that stands for some characters. -/
def scalarToken (style : Style) (text : List Char) : Token :=
  .scalar ⟨style, String.ofList text⟩

/-- A block of lines. -/
def block (s : Lexing) (isFolded : Bool) (cs : List Char) : Option Lexing := do
  let s ← s.dropKey
  let (text, rest) ← Scalar.readBlock isFolded s.least cs
  let t := scalarToken (if isFolded then .folded else .literal) text
  return { (s.moveTo rest).push t with allowsKey := true }

/-- A scalar in quotes. -/
def quoted (s : Lexing) (style : Style) (found : Option (List Char × List Char)) :
    Option Lexing := do
  let (text, rest) ← found
  s.name (scalarToken style text) rest

/-- A plain scalar.  A key may follow it where it reaches into another line. -/
def plain (s : Lexing) : Option Lexing := do
  let (text, isFolded, rest) ←
    Scalar.readPlain s.inBrackets s.least (s.rest.length + 1) (s.place.column == 0) s.rest
  let s ← s.name (scalarToken .plain text) rest
  return { s with allowsKey := isFolded }

/-- Something that divides documents, at the beginning of a line. -/
def divider (s : Lexing) : Option Lexing := do
  let s ← s.leaveDocument
  match s.rest with
  | '%' :: rest =>
    let (d, rest) ← Directive.read rest
    return (s.moveTo rest).push (.directive d)
  | '-' :: _ => return (s.moveTo (s.rest.drop 3)).push .documentStart
  | _ => return (s.moveTo (s.rest.drop 3)).push .documentEnd

/-- Cuts off the token that begins here. -/
def token (s : Lexing) : Option Lexing :=
  if s.place.column == 0 && (s.rest.head? == some '%' || atDivider s.rest) then s.divider
  else
    match s.rest with
    | '[' :: rest => s.openBracket .openSequence rest
    | '\x7b' :: rest => s.openBracket .openMapping rest
    | ']' :: rest => s.closeBracket .closeSequence rest
    | '\x7d' :: rest => s.closeBracket .closeMapping rest
    | ',' :: rest => s.comma rest
    | '*' :: rest => s.label .reference rest
    | '&' :: rest => s.label .anchor rest
    | '!' :: rest => s.writtenTag rest
    | '\'' :: rest => s.quoted .singleQuoted (Scalar.readSingle (rest.length + 1) rest)
    | '"' :: rest => s.quoted .doubleQuoted (Scalar.readDouble (rest.length + 1) rest)
    | c :: rest =>
      if c == '-' && atSpace rest then s.item rest
      else if c == '?' && (s.inBrackets || atSpace rest) then s.key rest
      else if c == ':' && (s.inBrackets || atSpace rest) then s.value rest
      else if (c == '|' || c == '>') && !s.inBrackets then s.block (c == '>') rest
      else if Scalar.startsPlain s.inBrackets s.rest then s.plain
      else none
    | [] => none

/-- Cuts the whole text, and closes what is open at its end. -/
def finish : Nat → Lexing → Option Lexing
  | 0, _ => none
  | fuel + 1, s => do
    let s ← s.toToken
    if s.rest.isEmpty then s.leaveDocument else (← s.token).finish fuel

end Lexing

/-- The tokens of a text. -/
def Token.ofText? (text : String) : Option (List Token) :=
  if text.toList.all isReadable then
    let cs := unifyBreaks text.toList
    (Lexing.finish (cs.length + 1) (.start cs)).map fun s => s.found.reverse
  else none

end LedgerIndex.Yaml
