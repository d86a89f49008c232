/-!
# Keys of table rows

A row is known by its table's name and up to two key columns.  A column that a table does not
have is absent, which is different from every text.
-/

namespace LedgerIndex

/-- The key of a row. -/
structure Key where
  name : String
  key1 : Option String
  key2 : Option String
  deriving DecidableEq, Repr, Inhabited

namespace Key

/-- The key of the only row of a table without key columns. -/
def singleton (name : String) : Key := ⟨name, none, none⟩

/-- An absent column comes before every text; texts are in the order of their characters. -/
def columnBefore : Option String → Option String → Bool
  | _, none => false
  | none, some _ => true
  | some a, some b => a < b

/-- Keys are in order of their names, then of their first, then of their second columns. -/
def before (a b : Key) : Bool :=
  if a.name = b.name then
    if a.key1 = b.key1 then columnBefore a.key2 b.key2 else columnBefore a.key1 b.key1
  else a.name < b.name

/-- Keys in order. -/
def sort (keys : List Key) : List Key := keys.mergeSort fun a b => !b.before a

end Key

end LedgerIndex
