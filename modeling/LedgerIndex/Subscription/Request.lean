import LedgerIndex.Json.Record
import LedgerIndex.Subscription.Filter

/-!
# Requests of subscribers

A subscriber sends texts.  The only request there is replaces its filters: an object whose member
`type` says `subscribe` and whose member `filters` lists them, in any order.  The type is checked
where it stands; the filters are checked when the whole object has been read.  As an array, the
type comes first and the filters second.
-/

namespace LedgerIndex

/-! ## Filters in requests -/

namespace Filter

/-- The fields of a filter found so far. -/
structure Fields where
  topic : Option Topic
  name : Option String
  sender : Option String
  deriving Inhabited

/-- The topic that a name stands for. -/
def topicNamed (name : String) : Except Fault Topic :=
  match Topic.ofName? name with
  | some t => .ok t
  | none => .error .mismatch

/-- A topic: its name, or an object whose only member has that name and holds nothing. -/
def topicShape : Shape Topic
  | _, .string (.ok name) => topicNamed name
  | _, .object [(.ok name, value)] .closed =>
    match value with
    | .null | .object [] .closed => topicNamed name
    | _ => .error .mismatch
  | _, r => .error r.misfit

/-- The fields of a filter. -/
def fields : List (Shape.Field Fields) :=
  [ .of "kind" topicShape fun t s => { s with topic := some t },
    .of "name" (.optional .string) fun v s => { s with name := v },
    .of "sender" (.optional .string) fun v s => { s with sender := v } ]

/-- The filter that the fields found come to. -/
def ofFields (s : Fields) : Except Fault Filter := do
  return ⟨← Shape.required s.topic, s.name, s.sender⟩

/-- A filter. -/
def shape : Shape Filter := .record fields ⟨none, none, none⟩ ofFields

end Filter

/-! ## The request -/

/-- A request of a subscriber. -/
inductive Request where
  | subscribe (filters : List Filter)
  deriving DecidableEq, Repr, Inhabited

namespace Request

/-- The word that a request's type has to be. -/
def typeWord : String := "subscribe"

/-- Checks the type of a request. -/
def checkType : Reading → Except Fault Unit
  | .string (.ok name) => if name = typeWord then .ok () else .error .mismatch
  | r => .error r.misfit

/-- Reads the members of a request.  The type is checked at once and may not be repeated; all
others are kept for later.  Answers them, and whether the type was there. -/
def readMembers (room : Nat) :
    List (Except Fault String × Reading) → Ending → Bool →
      Except Fault (List (Except Fault String × Reading) × Bool)
  | [], ending, typed => ending.keep.map fun _ => ([], typed)
  | (name, value) :: rest, ending, typed => do
    let name ← name
    if name = "type" then
      if typed then .error .mismatch
      else do checkType value; readMembers room rest ending true
    else do
      let _ ← value.json room
      let (others, typed) ← readMembers room rest ending typed
      return ((.ok name, value) :: others, typed)

/-- The filters of a request whose members or items have all been read.  The text is known to be
well formed, so whatever does not fit is a mismatch. -/
def filtersOf (room : Nat) (others : Reading) : Except Fault Request :=
  (Shape.record [.of "filters" (.list Filter.shape) fun filters _ => filters] [] .ok room
    others).mapError (fun _ => .mismatch) |>.map .subscribe

/-- A request. -/
def shape : Shape Request
  | 0, .array _ _ | 0, .object _ _ => .error .malformed
  | room + 1, .object members ending => do
    let (others, typed) ← readMembers room members ending false
    if typed then filtersOf (room + 1) (.object others .closed) else .error .mismatch
  | _ + 1, .array [] ending => ending.keep.bind fun () => .error .mismatch
  | room + 1, .array (type :: rest) ending => do
    checkType type
    let _ ← Reading.jsonItems room rest ending
    filtersOf (room + 1) (.array rest .closed)
  | _, r => .error r.misfit

/-- The request that a text is. -/
def parse (text : String) : Except Fault Request := shape.parse text

/-- The form in which a request is written. -/
def toJson : Request → Json
  | subscribe filters =>
    .ofMembers [("type", .string typeWord), ("filters", .array (filters.map Filter.toJson))]

end Request

end LedgerIndex
