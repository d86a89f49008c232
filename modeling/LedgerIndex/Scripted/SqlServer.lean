import LedgerIndex.Sql.Remote

/-!
# A database server that follows a script

It answers queries with rows written down beforehand, fails where it was told to, and keeps the
statements it was sent.
-/

namespace LedgerIndex.Scripted

/-- A server and how far its script has come. -/
structure SqlScript where
  /-- the rows for the next queries; further ones find none -/
  rows : List (List ServerRow)
  /-- the statement that fails, counted from one, and the text of the failure -/
  failure : Option (Nat × String)
  /-- the statements since the script was given -/
  sent : List Statement
  deriving Inhabited

namespace SqlScript

/-- A server with a script. -/
def new (rows : List (List ServerRow)) (failure : Option (Nat × String)) : SqlScript :=
  ⟨rows, failure, []⟩

/-- Executes a statement. -/
def execute (statement : Statement) (s : SqlScript) :
    Except ServerFailure (List ServerRow) × SqlScript :=
  let s := { s with sent := s.sent ++ [statement] }
  let isFailing := match s.failure with
    | none => none
    | some (n, text) => if n = s.sent.length then some text else none
  match isFailing with
  | some text => (.error ⟨text⟩, s)
  | none =>
    if statement.isSelect then (.ok (s.rows.headD []), { s with rows := s.rows.tail })
    else (.ok [], s)

instance : SqlServer SqlScript := ⟨execute⟩

end SqlScript

end LedgerIndex.Scripted
