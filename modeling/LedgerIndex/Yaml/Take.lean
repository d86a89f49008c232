import LedgerIndex.Decimal.Digits
import LedgerIndex.Yaml.Basic

/-!
# Taking values from YAML

A scalar keeps its text; what the text stands for is up to the one who takes it.  Truth values,
numbers and nothing are told by plain scalars only, a text by any scalar.  A tag decides only
whether a scalar stands for nothing, and which of some names is meant.
-/

namespace LedgerIndex.Yaml

/-- A way to take a value from a place in a document with some anchors. -/
abbrev Take (α : Type) := Anchors → Yaml → Option α

namespace Take

/-- A way to take a value from what a place holds or names. -/
def of (take : Yaml → Option α) : Take α := fun anchors v => (anchors.follow v).bind take

/-! ## Scalars -/

/-- The plain texts that stand for nothing, apart from the empty one. -/
def nullTexts : List String := ["~", "null", "Null", "NULL"]

/-- A plain scalar without a tag that has this text stands for nothing. -/
def isNullText (text : String) : Bool := text.isEmpty || nullTexts.contains text

/-- The value stands for nothing; a tag that says so has to be right. -/
def isNull : Yaml → Option Bool
  | scalar p ⟨.plain, text⟩ =>
    match p.tag with
    | none => some (isNullText text)
    | some tag =>
      if tag == .standard "null" then
        if nullTexts.contains text then some true else none
      else some false
  | _ => some false

/-- The text of a scalar that is plain, or a literal block of the kind that a tag says. -/
def plainText? (kind : String) : Yaml → Option String
  | scalar p s =>
    if s.style == .plain || (s.style == .literal && p.tag == some (.standard kind)) then
      some s.text
    else none
  | _ => none

/-- A text.  A plain scalar is taken as it is written. -/
def text : Take String := .of fun
  | scalar _ s => some s.text
  | _ => none

/-- A truth value. -/
def bool : Take Bool := .of fun v =>
  match plainText? "bool" v with
  | some "true" | some "True" | some "TRUE" => some true
  | some "false" | some "False" | some "FALSE" => some false
  | _ => none

/-- The number that a text stands for: in base ten without leading zeros, or marked as of another
base.  A plus sign may stand in front. -/
def number? (s : String) : Option Nat :=
  let unsigned :=
    match s.toList with
    | '+' :: cs => cs
    | cs => cs
  match unsigned with
  | '0' :: 'x' :: cs => Digits.number? 16 cs
  | '0' :: 'o' :: cs => Digits.number? 8 cs
  | '0' :: 'b' :: cs => Digits.number? 2 cs
  | '0' :: _ :: _ => none
  | cs => Digits.number? 10 cs

/-- A number below a bound. -/
def number (bound : Nat) : Take Nat := .of fun v =>
  ((plainText? "int" v).bind number?).filter (· < bound)

/-- A word of 64 bits. -/
def word : Take Nat := number UInt64.size

/-- Something or nothing. -/
def optional (take : Take α) : Take (Option α) := fun anchors v => do
  let v ← anchors.follow v
  if ← isNull v then some none else (take anchors v).map some

/-- One of the names in a table: the text of a scalar, or the tag of an empty one. -/
def oneOf (table : List (String × α)) : Take α := .of fun
  | scalar p s =>
    match p.tag.bind Tag.name? with
    | some name => if s.style == .plain && isNullText s.text then table.lookup name else none
    | none => table.lookup s.text
  | _ => none

/-! ## Collections -/

/-- The place is empty. -/
def isEmpty : Yaml → Bool
  | scalar _ s => s == ⟨.plain, ""⟩
  | _ => false

/-- A sequence.  An empty place counts as one without items. -/
def list (take : Take α) : Take (List α) := fun anchors v => do
  match ← anchors.follow v with
  | sequence _ items => items.mapM (take anchors)
  | v => if isEmpty v then some [] else none

/-- The entries of a mapping.  An empty place counts as one without entries. -/
def entries? (anchors : Anchors) (v : Yaml) : Option (List (Yaml × Yaml)) := do
  match ← anchors.follow v with
  | mapping _ entries => some entries
  | v => if isEmpty v then some [] else none

/-- A mapping from texts. -/
def map (take : Take α) : Take (List (String × α)) := fun anchors v => do
  (← entries? anchors v).mapM fun (key, value) => do
    return (← text anchors key, ← take anchors value)

/-- A field of a record: its name, and how the fields found so far take up its value. -/
structure Field (σ : Type) where
  name : String
  take : Anchors → Yaml → σ → Option σ

/-- A field of the given kind. -/
def Field.of (name : String) (take : Take α) (put : α → σ → σ) : Field σ :=
  ⟨name, fun anchors v s => (take anchors v).map fun a => put a s⟩

/-- Takes up the entries of a mapping.  A field may be named once; other names are skipped. -/
def fromEntries (fields : List (Field σ)) (anchors : Anchors) :
    List (Yaml × Yaml) → List String → σ → Option σ
  | [], _, s => some s
  | (key, v) :: rest, seen, s => do
    let name ← text anchors key
    match fields.find? (·.name == name) with
    | none => fromEntries fields anchors rest seen s
    | some f =>
      if seen.contains name then none
      else fromEntries fields anchors rest (name :: seen) (← f.take anchors v s)

/-- A record with the given fields.  `finish` says what the fields found come to. -/
def record (fields : List (Field σ)) (start : σ) (finish : σ → Option α) : Take α :=
  fun anchors v => do
    finish (← fromEntries fields anchors (← entries? anchors v) [] start)

/-- Takes the value of a whole document. -/
def all (take : Take α) (root : Yaml) : Option α := take root.anchored.reverse root

end Take

end LedgerIndex.Yaml
