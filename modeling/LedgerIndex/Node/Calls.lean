import LedgerIndex.Ledger.Transaction

/-!
# Calls of a transaction

A programmable transaction is a list of commands over a list of inputs.  Those commands that are
calls are kept, in order, with the inputs they refer to put in place of the references.  What
does not have the expected form counts as absent.
-/

namespace LedgerIndex.Node

/-- What an input stands for: the value of a pure one, the id of an object, otherwise itself. -/
def inputValue (input : Json) : Json :=
  match input.get? "type" with
  | some (.string "pure") => (input.get? "value").getD .null
  | some (.string "object") => (input.get? "objectId").getD input
  | _ => input

/-- An argument with its reference to an input resolved, if it is one.  A reference beyond the
inputs stays as it is. -/
def resolve (inputs : List Json) (argument : Json) : Json :=
  match (argument.get? "Input").bind Json.uint64? with
  | none => argument
  | some n =>
    match inputs[n.toNat]? with
    | some input => inputValue input
    | none => argument

/-- The items of an array that a member holds, none if it holds no array. -/
def listMember (name : String) (v : Json) : List Json :=
  ((v.get? name).bind Json.items?).getD []

/-- The text that a member holds, empty if it holds none. -/
def textMember (name : String) (v : Json) : String :=
  ((v.get? name).bind Json.string?).getD ""

/-- The call that a command makes. -/
def callOf (inputs : List Json) (call : Json) : Call :=
  ⟨textMember "package" call, textMember "module" call, textMember "function" call,
    .array ((listMember "arguments" call).map (resolve inputs))⟩

/-- The calls of a transaction, given what it does. -/
def calls (transaction : Json) : List Call :=
  match transaction.get? "kind" with
  | some (.string "ProgrammableTransaction") =>
    let inputs := listMember "inputs" transaction
    ((listMember "transactions" transaction).filterMap (·.get? "MoveCall")).map (callOf inputs)
  | _ => []

end LedgerIndex.Node
