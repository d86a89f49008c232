import LedgerIndex.Yaml.Scalar
import LedgerIndex.Yaml.Tag

/-!
# YAML values

What a settings file holds: scalars, sequences and mappings.  A value may bear a tag and an anchor,
and a place may name an anchor instead of holding a value of its own.  Anchors are numbered, and
an anchored value may hold places that name it, so such places are followed only when a value
is taken from them.
-/

namespace LedgerIndex

/-- What a value may bear: an anchor, by its number, and a tag. -/
structure Yaml.Properties where
  anchor : Option Nat
  tag : Option Yaml.Tag
  deriving Inhabited

/-- A YAML value. -/
inductive Yaml where
  | reference (id : Nat)
  | scalar (properties : Yaml.Properties) (s : Yaml.Scalar)
  | sequence (properties : Yaml.Properties) (items : List Yaml)
  | mapping (properties : Yaml.Properties) (entries : List (Yaml × Yaml))
  deriving Inhabited

namespace Yaml

/-- The value of an empty place. -/
def empty (properties : Properties) : Yaml := scalar properties ⟨.plain, ""⟩

/-! ## Anchors -/

/-- The anchored values of a document, the last of them first. -/
abbrev Anchors := List (Nat × Yaml)

/-- A value under its own anchor. -/
def named (properties : Properties) (v : Yaml) : Anchors :=
  (properties.anchor.map fun id => (id, v)).toList

mutual
/-- The anchored values in a value, in the order in which they begin. -/
def anchored : Yaml → Anchors
  | reference _ => []
  | scalar p s => named p (scalar p s)
  | sequence p items => named p (sequence p items) ++ anchoredItems items
  | mapping p entries => named p (mapping p entries) ++ anchoredEntries entries
/-- The anchored values in the items of a sequence. -/
def anchoredItems : List Yaml → Anchors
  | [] => []
  | item :: rest => anchored item ++ anchoredItems rest
/-- The anchored values in the entries of a mapping. -/
def anchoredEntries : List (Yaml × Yaml) → Anchors
  | [] => []
  | (key, value) :: rest => anchored key ++ anchored value ++ anchoredEntries rest
end

/-- The value that a place holds or names. -/
def Anchors.follow (anchors : Anchors) : Yaml → Option Yaml
  | reference id => anchors.lookup id
  | v => some v

end Yaml

end LedgerIndex
