import LedgerIndex.Json.Record
import LedgerIndex.Subscription.Filter

/-!
# Messages as subscribers read them

A subscriber gets its messages as texts.  A message is a record of which the table and the sender
may be left out.
-/

namespace LedgerIndex.Push

/-- The fields of a message found so far. -/
structure Fields where
  topic : Option Topic
  name : Option String
  table : Option String
  checkpoint : Option UInt64
  sender : Option String
  data : Option Json
  deriving Inhabited

/-- A topic: its name, or an object whose only member has that name and holds nothing. -/
def topicShape : Shape Topic
  | _, .string (.ok name) | _, .object [(.ok name, .null)] .closed =>
    Shape.required (Topic.ofName? name)
  | _, r => .error r.misfit

/-- The fields of a message. -/
def fields : List (Shape.Field Fields) :=
  [ .of "kind" topicShape fun t s => { s with topic := some t },
    .of "name" .string fun v s => { s with name := some v },
    .of "table" (.optional .string) fun v s => { s with table := v },
    .of "checkpoint" .uint64 fun v s => { s with checkpoint := some v },
    .of "sender" (.optional .string) fun v s => { s with sender := v },
    .of "data" .json fun v s => { s with data := some v } ]

/-- The message that the fields found come to. -/
def ofFields (s : Fields) : Except Fault Push := do
  return ⟨← Shape.required s.topic, ← Shape.required s.name, s.table,
    ← Shape.required s.checkpoint, s.sender, ← Shape.required s.data⟩

/-- A message. -/
def shape : Shape Push := .record fields ⟨none, none, none, none, none, none⟩ ofFields

/-- The message that a text is. -/
def parse (text : String) : Except Fault Push := shape.parse text

end LedgerIndex.Push
