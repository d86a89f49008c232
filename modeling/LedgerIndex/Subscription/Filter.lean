import LedgerIndex.Batch

/-!
# Messages to subscribers, and filters on them

Each log entry and each change of a committed batch becomes a message.  A subscriber names the
messages it wants by filters: by kind, by name, and for log entries by sender.
-/

namespace LedgerIndex

/-- What a message or a filter is about. -/
inductive Topic where
  | entry
  | change
  deriving DecidableEq, Repr, Inhabited

namespace Topic

/-- The name of a topic in texts. -/
def name : Topic → String
  | entry => "domain_event"
  | change => "state_change"

/-- The topic with a name, in either of its spellings. -/
def ofName? : String → Option Topic
  | "domain_event" | "DomainEvent" => some entry
  | "state_change" | "StateChange" => some change
  | _ => none

end Topic

/-- A message to subscribers. -/
structure Push where
  topic : Topic
  name : String
  /-- the table of a change -/
  table : Option String
  checkpoint : UInt64
  sender : Option String
  data : Json
  deriving Inhabited

namespace Push

/-- The message for a log entry. -/
def ofEvent (e : EventRecord) : Push := ⟨.entry, e.name, none, e.checkpoint, some e.sender, e.value⟩

/-- What a message says of a change.  A removal has the value `null` and is marked as one. -/
def changeData (c : Change) : Json :=
  .ofMembers
    [ ("key1", .ofOption .string c.key.key1),
      ("key2", .ofOption .string c.key.key2),
      ("value", c.value.getD .null),
      ("is_removed", .bool c.isRemove) ]

/-- The message for a change. -/
def ofChange (c : Change) : Push :=
  ⟨.change, c.key.name, some c.key.name, c.checkpoint, some c.sender, changeData c⟩

/-- The members of a message as it is sent. -/
def members (p : Push) : List (String × Json) :=
  [("kind", .string p.topic.name), ("name", .string p.name)] ++
    Json.optionalMember "table" .string p.table ++ [("checkpoint", .ofUInt64 p.checkpoint)] ++
    Json.optionalMember "sender" .string p.sender ++ [("data", p.data)]

/-- The form in which a message is sent. -/
def toJson (p : Push) : Json := .ofMembers p.members

end Push

/-- The messages for a batch: the log entries in order, then the changes by checkpoint, and in
order where checkpoints are equal.  So the last message about a row tells what the store keeps. -/
def Batch.messages (b : Batch) : List Push :=
  b.events.map .ofEvent ++
    (b.changes.mergeSort fun a b => a.checkpoint ≤ b.checkpoint).map .ofChange

/-- A filter on messages.  What it does not name may be anything. -/
structure Filter where
  topic : Topic
  name : Option String
  sender : Option String
  deriving DecidableEq, Repr, Inhabited

namespace Filter

/-- A filter on log entries. -/
def entries (name sender : Option String) : Filter := ⟨.entry, name, sender⟩

/-- A filter on changes. -/
def changes (name : Option String) : Filter := ⟨.change, name, none⟩

/-- The filter wants a message.  The sender counts for log entries only. -/
def wants (f : Filter) (p : Push) : Bool :=
  f.topic == p.topic &&
    (match f.name with
      | some name => name == p.name
      | none => true) &&
    (match f.topic, f.sender with
      | .entry, some sender => p.sender == some sender
      | _, _ => true)

/-- The members of a filter, with its kind in some spelling. -/
def members (kind : String) (f : Filter) : List (String × Json) :=
  [("kind", .string kind)] ++ Json.optionalMember "name" .string f.name ++
    Json.optionalMember "sender" .string f.sender

/-- The form in which a filter is written. -/
def toJson (f : Filter) : Json := .ofMembers (f.members f.topic.name)

end Filter

end LedgerIndex
