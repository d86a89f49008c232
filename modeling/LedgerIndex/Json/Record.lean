import LedgerIndex.Json.Reader

/-!
# Records of known fields

How a value of a fixed shape is taken from a reading: as an object that names its fields, or as
an array that gives them in order.  Other members of an object are skipped.  A field named twice
is a mismatch as soon as it is met again; whether a field is missing is seen at the closing
bracket.  An array may not hold more items than there are fields.
-/

namespace LedgerIndex

/-- A way to take a value from a reading, with at most `room` further brackets open at once. -/
abbrev Shape (α : Type) := Nat → Reading → Except Fault α

namespace Shape

/-- Any value. -/
def json : Shape Json := Reading.json

/-- A string. -/
def string : Shape String
  | _, .string s => s
  | _, r => .error r.misfit

/-- A truth value. -/
def bool : Shape Bool
  | _, .bool b => .ok b
  | _, r => .error r.misfit

/-- An integer between two bounds. -/
def integer (low high : Int) : Shape Int
  | _, .number (some (.int i)) => if low ≤ i ∧ i ≤ high then .ok i else .error .mismatch
  | _, r => .error r.misfit

/-- A signed word of 64 bits. -/
def int64 : Shape Int := integer (-Nat.pow 2 63) (Nat.pow 2 63 - 1)

/-- An unsigned word of 64 bits. -/
def uint64 : Shape UInt64
  | room, r => (integer 0 (UInt64.size - 1) room r).map fun i => .ofNat i.toNat

/-- Something or `null`. -/
def optional (shape : Shape α) : Shape (Option α)
  | _, .null => .ok none
  | room, r => (shape room r).map some

/-- All items of an array, in order. -/
def items (shape : Shape α) (room : Nat) : List Reading → Ending → Except Fault (List α)
  | [], ending => ending.keep.map fun _ => []
  | item :: rest, ending => do
    let first ← shape room item
    return first :: (← items shape room rest ending)

/-- An array. -/
def list (shape : Shape α) : Shape (List α)
  | 0, .array _ _ => .error .malformed
  | room + 1, .array found ending => items shape room found ending
  | _, r => .error r.misfit

/-! ## Records -/

/-- A field of a record: its name, and how the fields found so far take up its value. -/
structure Field (σ : Type) where
  name : String
  take : Nat → Reading → σ → Except Fault σ

/-- A field of the given shape. -/
def Field.of (name : String) (shape : Shape α) (put : α → σ → σ) : Field σ :=
  ⟨name, fun room r s => (shape room r).map fun a => put a s⟩

/-- Takes up the members of an object.  `seen` are the fields met so far. -/
def fromMembers (fields : List (Field σ)) (room : Nat) :
    List (Except Fault String × Reading) → Ending → List String → σ → Except Fault σ
  | [], ending, _, s => ending.keep.map fun _ => s
  | (name, value) :: rest, ending, seen, s => do
    let name ← name
    match fields.find? (·.name == name) with
    | none => do value.skip; fromMembers fields room rest ending seen s
    | some f =>
      if seen.contains name then .error .mismatch
      else fromMembers fields room rest ending (name :: seen) (← f.take room value s)

/-- Takes up the items of an array, one for each field. -/
def fromItems (room : Nat) :
    List (Field σ) → List Reading → Ending → σ → Except Fault σ
  | _, [], ending, s => ending.keep.map fun _ => s
  | [], _ :: _, _, _ => .error .malformed
  | f :: fields, item :: rest, ending, s => do
    fromItems room fields rest ending (← f.take room item s)

/-- A record with the given fields.  `finish` says what the fields found come to. -/
def record (fields : List (Field σ)) (start : σ) (finish : σ → Except Fault α) : Shape α
  | 0, .array _ _ | 0, .object _ _ => .error .malformed
  | room + 1, .object members ending => do
    finish (← fromMembers fields room members ending [] start)
  | room + 1, .array found ending => do
    finish (← fromItems room fields found ending start)
  | _, r => .error r.misfit

/-- A field that has to be there. -/
def required : Option α → Except Fault α
  | some a => .ok a
  | none => .error .mismatch

/-! ## Taking values -/

/-- Takes a value of the shape from a text that holds just it. -/
def parse (shape : Shape α) (text : String) : Except Fault α :=
  (Document.read text).decode (shape Json.maxDepth)

/-- Takes a value of the shape from a value that was read already. -/
def ofJson? (shape : Shape α) (v : Json) : Option α :=
  (shape Json.maxDepth (.ofJson v)).toOption

end Shape

end LedgerIndex
