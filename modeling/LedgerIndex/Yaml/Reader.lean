import LedgerIndex.Yaml.Basic
import LedgerIndex.Yaml.Token

/-!
# Reading YAML

A document is read from the tokens of its text.  It holds one value, maybe with directives and the
mark of its beginning in front of it and marks of its end behind it.  A text with a second
document is refused.  An anchor has the number of names that were in use before it, so that a
name used again may share its number with a later one; the later one then counts.
-/

namespace LedgerIndex.Yaml

/-- Tokens to read, what the handles of tags stand for, and the anchors so far, the last of them
first. -/
structure Source where
  tokens : List Token
  handles : List (List Char × List UInt8)
  anchors : List (String × Nat)
  deriving Inhabited

namespace Source

/-- Goes on to what is left. -/
def moveTo (s : Source) (tokens : List Token) : Source := { s with tokens }

/-- The next token is one of some. -/
def isAt (s : Source) (tokens : List Token) : Bool := s.tokens.head?.any tokens.contains

/-! ## Anchors and tags -/

/-- Reads an anchor, if there is one. -/
def readAnchor (s : Source) : Option Nat × Source :=
  match s.tokens with
  | .anchor name :: rest =>
    let id := (s.anchors.map (·.1)).eraseDups.length
    (some id, { s with tokens := rest, anchors := (name, id) :: s.anchors })
  | _ => (none, s)

/-- Reads a tag, if there is one.  Its handle has to stand for something. -/
def readTag (s : Source) : Option (Option Tag × Source) :=
  match s.tokens with
  | .tag t :: rest => (t.resolve s.handles).map fun tag => (some tag, s.moveTo rest)
  | _ => some (none, s)

/-- Reads an anchor and a tag in any order. -/
def readProperties (s : Source) : Option (Properties × Source) := do
  let (anchor, s) := s.readAnchor
  let (tag, s) ← s.readTag
  match anchor with
  | some _ => return (⟨anchor, tag⟩, s)
  | none =>
    let (anchor, s) := if tag.isSome then s.readAnchor else (none, s)
    return (⟨anchor, tag⟩, s)

/-- The tag of a scalar that says nothing about it. -/
def plainTag : Tag := .ofString "!"

/-- What a scalar bears. -/
def scalarProperties (p : Properties) : Properties :=
  if p.tag == some plainTag then { p with tag := none } else p

/-! ## Values -/

/-- Nothing is borne. -/
def bare : Properties := ⟨none, none⟩

/-- What ends an empty place in a block. -/
def blockStops : List Token := [.key, .value, .blockEnd]

/-- What ends an empty place in a sequence between brackets. -/
def sequenceStops : List Token := [.comma, .closeSequence]

/-- What ends an empty place in a mapping between brackets. -/
def mappingStops : List Token := [.comma, .closeMapping]

/-- Passes the comma between two parts of a collection. -/
def passComma (s : Source) (isFirst : Bool) : Option Source :=
  if isFirst then some s
  else
    match s.tokens with
    | .comma :: rest => some (s.moveTo rest)
    | _ => none

mutual

/-- Reads a value.  `inBlock` says that it may be a block, `afterKey` that the items of a sequence
may stand as far left as the key before it. -/
def readValue (inBlock afterKey : Bool) : Nat → Source → Option (Yaml × Source)
  | 0, _ => none
  | fuel + 1, s =>
    match s.tokens with
    | .reference name :: rest =>
      (s.anchors.lookup name).map fun id => (.reference id, s.moveTo rest)
    | _ => do
      let (p, s) ← s.readProperties
      match s.tokens with
      | .scalar found :: rest => return (.scalar (scalarProperties p) found, s.moveTo rest)
      | .openSequence :: rest =>
        let (items, s) ← readListed true fuel (s.moveTo rest)
        return (.sequence p items, s)
      | .openMapping :: rest =>
        let (entries, s) ← readPaired true fuel (s.moveTo rest)
        return (.mapping p entries, s)
      | first :: rest =>
        if afterKey && first == .item then
          let (items, s) ← readBareItems fuel s
          return (.sequence p items, s)
        else if inBlock && first == .blockSequence then
          let (items, s) ← readItems fuel (s.moveTo rest)
          return (.sequence p items, s)
        else if inBlock && first == .blockMapping then
          let (entries, s) ← readEntries fuel (s.moveTo rest)
          return (.mapping p entries, s)
        else if p.anchor.isSome || p.tag.isSome then return (.empty p, s)
        else none
      | [] => if p.anchor.isSome || p.tag.isSome then return (.empty p, s) else none

/-- Reads what may be an empty place. -/
def readPlace (stops : List Token) (inBlock : Bool) :
    Nat → Bool → Source → Option (Yaml × Source)
  | 0, _, _ => none
  | fuel + 1, afterKey, s =>
    if s.isAt stops then some (.empty bare, s) else readValue inBlock afterKey fuel s

/-- Reads the value of an entry, which may be missing. -/
def readEntryValue (stops : List Token) (inBlock : Bool) : Nat → Source → Option (Yaml × Source)
  | 0, _ => none
  | fuel + 1, s =>
    match s.tokens with
    | .value :: rest => readPlace stops inBlock fuel inBlock (s.moveTo rest)
    | _ => some (.empty bare, s)

/-- Reads the items of a sequence in block form. -/
def readItems : Nat → Source → Option (List Yaml × Source)
  | 0, _ => none
  | fuel + 1, s =>
    match s.tokens with
    | .item :: rest => do
      let (first, s) ← readPlace [.item, .blockEnd] true fuel false (s.moveTo rest)
      let (items, s) ← readItems fuel s
      return (first :: items, s)
    | .blockEnd :: rest => some ([], s.moveTo rest)
    | _ => none

/-- Reads the items of a sequence that is not indented further than the key before it. -/
def readBareItems : Nat → Source → Option (List Yaml × Source)
  | 0, _ => none
  | fuel + 1, s =>
    match s.tokens with
    | .item :: rest => do
      let (first, s) ← readPlace (.item :: blockStops) true fuel false (s.moveTo rest)
      let (items, s) ← readBareItems fuel s
      return (first :: items, s)
    | _ => some ([], s)

/-- Reads the entries of a mapping in block form. -/
def readEntries : Nat → Source → Option (List (Yaml × Yaml) × Source)
  | 0, _ => none
  | fuel + 1, s =>
    match s.tokens with
    | .key :: rest => do
      let (key, s) ← readPlace blockStops true fuel true (s.moveTo rest)
      let (value, s) ← readEntryValue blockStops true fuel s
      let (entries, s) ← readEntries fuel s
      return ((key, value) :: entries, s)
    | .blockEnd :: rest => some ([], s.moveTo rest)
    | _ => none

/-- Reads the items of a sequence between brackets.  An item may be a mapping of a single entry. -/
def readListed (isFirst : Bool) : Nat → Source → Option (List Yaml × Source)
  | 0, _ => none
  | fuel + 1, s =>
    match s.tokens with
    | .closeSequence :: rest => some ([], s.moveTo rest)
    | _ => do
      let s ← s.passComma isFirst
      match s.tokens with
      | .closeSequence :: rest => return ([], s.moveTo rest)
      | .key :: rest =>
        let (entry, s) ← readSingleEntry fuel (s.moveTo rest)
        let (items, s) ← readListed false fuel s
        return (.mapping bare [entry] :: items, s)
      | _ =>
        let (first, s) ← readValue false false fuel s
        let (items, s) ← readListed false fuel s
        return (first :: items, s)

/-- Reads the entry of a mapping that is an item between brackets.  An empty key takes the token
that ends it along. -/
def readSingleEntry : Nat → Source → Option ((Yaml × Yaml) × Source)
  | 0, _ => none
  | fuel + 1, s => do
    let (key, s) ←
      if s.isAt (.value :: sequenceStops) then some (.empty bare, s.moveTo (s.tokens.drop 1))
      else readValue false false fuel s
    let (value, s) ← readEntryValue sequenceStops false fuel s
    return ((key, value), s)

/-- Reads the entries of a mapping between brackets. -/
def readPaired (isFirst : Bool) : Nat → Source → Option (List (Yaml × Yaml) × Source)
  | 0, _ => none
  | fuel + 1, s =>
    match s.tokens with
    | .closeMapping :: rest => some ([], s.moveTo rest)
    | _ => do
      let s ← s.passComma isFirst
      match s.tokens with
      | .closeMapping :: rest => return ([], s.moveTo rest)
      | .key :: rest =>
        let (key, s) ← readPlace (.value :: mappingStops) false fuel false (s.moveTo rest)
        let (value, s) ← readEntryValue mappingStops false fuel s
        let (entries, s) ← readPaired false fuel s
        return ((key, value) :: entries, s)
      | _ =>
        let (key, s) ← readValue false false fuel s
        let (entries, s) ← readPaired false fuel s
        return ((key, .empty bare) :: entries, s)

end

/-! ## Documents -/

/-- Reads the directives in front of a document. -/
def readDirectives : List Token → List Directive × List Token
  | .directive d :: rest =>
    let (found, left) := readDirectives rest
    (d :: found, left)
  | tokens => ([], tokens)

/-- What is left begins or ends a document. -/
def atDocument : List Token → Bool
  | [] | .directive _ :: _ | .documentStart :: _ | .documentEnd :: _ => true
  | _ => false

/-- Reads the value of the first document. -/
def readDocument (tokens : List Token) : Option (Yaml × List Token) := do
  let (directives, rest) := readDirectives tokens
  let handles ← Directive.handles? directives
  let (isEmpty, rest) ←
    match rest with
    | .documentStart :: rest => some (atDocument rest, rest)
    | rest => if directives.isEmpty then some (rest.isEmpty, rest) else none
  if isEmpty then return (.empty bare, rest)
  let (v, s) ← readValue true false (3 * rest.length + 3) ⟨rest, handles, []⟩
  return (v, s.tokens)

end Source

/-- The value that tokens make up, if they are those of one document. -/
def ofTokens? (tokens : List Token) : Option Yaml := do
  let (v, rest) ← Source.readDocument tokens
  if rest.all (· == .documentEnd) then some v else none

/-- The value that a text holds, if it holds just one. -/
def parse (text : String) : Option Yaml := (Token.ofText? text).bind ofTokens?

end LedgerIndex.Yaml
