import LedgerIndex.Json.Record

/-!
# Pages of the node

A page of transactions as the node writes it.  Optional fields may be absent or `null`; fields
with a default may only be absent.
-/

namespace LedgerIndex.Node

/-- An event of a block. -/
structure BlockEvent where
  type : String
  sender : String
  parsedJson : Json
  deriving Inhabited

/-- The signed part of a block: who sent it, and what it does. -/
structure BlockData where
  sender : String
  transaction : Json
  deriving Inhabited

/-- A transaction of a page. -/
structure Block where
  digest : String
  checkpoint : Option String
  timestamp : Option String
  data : Option BlockData
  events : List BlockEvent
  deriving Inhabited

/-- A page. -/
structure Page where
  blocks : List Block
  nextCursor : Option String
  hasNextPage : Bool
  deriving Inhabited

/-! ## Reading -/

namespace BlockEvent

/-- The fields of an event found so far. -/
structure Fields where
  type : Option String
  sender : Option String
  parsedJson : Json
  deriving Inhabited

/-- The fields of an event. -/
def fields : List (Shape.Field Fields) :=
  [ .of "type" .string fun v s => { s with type := some v },
    .of "sender" .string fun v s => { s with sender := some v },
    .of "parsedJson" .json fun v s => { s with parsedJson := v } ]

/-- The event that the fields found come to. -/
def ofFields (s : Fields) : Except Fault BlockEvent := do
  return ⟨← Shape.required s.type, ← Shape.required s.sender, s.parsedJson⟩

/-- An event. -/
def shape : Shape BlockEvent := .record fields ⟨none, none, .null⟩ ofFields

end BlockEvent

namespace BlockData

/-- The fields of the signed part found so far. -/
structure Fields where
  sender : Option String
  transaction : Option Json
  deriving Inhabited

/-- The fields of the signed part. -/
def fields : List (Shape.Field Fields) :=
  [ .of "sender" .string fun v s => { s with sender := some v },
    .of "transaction" .json fun v s => { s with transaction := some v } ]

/-- The signed part that the fields found come to. -/
def ofFields (s : Fields) : Except Fault BlockData := do
  return ⟨← Shape.required s.sender, ← Shape.required s.transaction⟩

/-- The signed part. -/
def shape : Shape BlockData := .record fields ⟨none, none⟩ ofFields

/-- The only field of the record that wraps the signed part. -/
def wrapping : List (Shape.Field (Option BlockData)) := [.of "data" shape fun v _ => some v]

/-- The signed part in the record that wraps it. -/
def wrapped : Shape BlockData := .record wrapping none Shape.required

end BlockData

namespace Block

/-- The fields of a block found so far. -/
structure Fields where
  digest : Option String
  checkpoint : Option String
  timestamp : Option String
  data : Option BlockData
  events : List BlockEvent
  deriving Inhabited

/-- The fields of a block. -/
def fields : List (Shape.Field Fields) :=
  [ .of "digest" .string fun v s => { s with digest := some v },
    .of "checkpoint" (.optional .string) fun v s => { s with checkpoint := v },
    .of "timestampMs" (.optional .string) fun v s => { s with timestamp := v },
    .of "transaction" (.optional BlockData.wrapped) fun v s => { s with data := v },
    .of "events" (.list BlockEvent.shape) fun v s => { s with events := v } ]

/-- The block that the fields found come to. -/
def ofFields (s : Fields) : Except Fault Block := do
  return ⟨← Shape.required s.digest, s.checkpoint, s.timestamp, s.data, s.events⟩

/-- A block. -/
def shape : Shape Block := .record fields ⟨none, none, none, none, []⟩ ofFields

end Block

namespace Page

/-- The fields of a page found so far. -/
structure Fields where
  blocks : Option (List Block)
  nextCursor : Option String
  hasNextPage : Bool
  deriving Inhabited

/-- The fields of a page. -/
def fields : List (Shape.Field Fields) :=
  [ .of "data" (.list Block.shape) fun v s => { s with blocks := some v },
    .of "nextCursor" (.optional .string) fun v s => { s with nextCursor := v },
    .of "hasNextPage" .bool fun v s => { s with hasNextPage := v } ]

/-- The page that the fields found come to. -/
def ofFields (s : Fields) : Except Fault Page := do
  return ⟨← Shape.required s.blocks, s.nextCursor, s.hasNextPage⟩

/-- A page. -/
def shape : Shape Page := .record fields ⟨none, none, false⟩ ofFields

/-- The page that a text is. -/
def parse (text : String) : Except Fault Page := shape.parse text

end Page

/-! ## Writing -/

/-- The members of an event as it is written. -/
def BlockEvent.members (e : BlockEvent) : List (String × Json) :=
  [("type", .string e.type), ("sender", .string e.sender), ("parsedJson", e.parsedJson)]

/-- The form in which an event is written. -/
def BlockEvent.toJson (e : BlockEvent) : Json := .ofMembers e.members

/-- The members of the signed part as it is written. -/
def BlockData.members (d : BlockData) : List (String × Json) :=
  [("sender", .string d.sender), ("transaction", d.transaction)]

/-- The form in which the signed part is written. -/
def BlockData.toJson (d : BlockData) : Json := .ofMembers d.members

/-- The only member of the record that wraps the signed part. -/
def BlockData.wrapper (d : BlockData) : List (String × Json) := [("data", d.toJson)]

/-- The form in which the signed part is written in the record that wraps it. -/
def BlockData.toWrapper (d : BlockData) : Json := .ofMembers d.wrapper

/-- The members of a block as it is written, all fields present. -/
def Block.members (b : Block) : List (String × Json) :=
  [ ("digest", .string b.digest), ("checkpoint", .ofOption .string b.checkpoint),
    ("timestampMs", .ofOption .string b.timestamp),
    ("transaction", .ofOption BlockData.toWrapper b.data),
    ("events", .array (b.events.map BlockEvent.toJson)) ]

/-- The form in which a block is written. -/
def Block.toJson (b : Block) : Json := .ofMembers b.members

/-- The members of a page as it is written, all fields present. -/
def Page.members (p : Page) : List (String × Json) :=
  [ ("data", .array (p.blocks.map Block.toJson)), ("nextCursor", .ofOption .string p.nextCursor),
    ("hasNextPage", .bool p.hasNextPage) ]

/-- The form in which a page is written. -/
def Page.toJson (p : Page) : Json := .ofMembers p.members

end LedgerIndex.Node
