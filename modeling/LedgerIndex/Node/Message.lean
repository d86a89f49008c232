import LedgerIndex.Json.Record
import LedgerIndex.Json.Text

/-!
# Messages to and from a node

A node is asked in JSON-RPC: a request names a method and its parameters and carries a number; a
response carries a result or an error.
-/

namespace LedgerIndex.Node

/-- A request. -/
structure Request where
  id : Nat
  method : String
  params : List Json
  deriving Inhabited

/-- The form in which a request is sent. -/
def Request.toJson (r : Request) : Json :=
  .ofMembers
    [ ("jsonrpc", .string "2.0"), ("method", .string r.method), ("params", .array r.params),
      ("id", .ofInt r.id) ]

/-- An error that a node reports. -/
structure Refusal where
  code : Int
  message : String
  data : Option Json
  deriving Inhabited

namespace Refusal

/-- The text of a node's error. -/
def text (e : Refusal) : String :=
  "JSON-RPC error " ++ String.ofList (intText e.code) ++ ": " ++ e.message

/-- The members of a node's error as it is written. -/
def members (e : Refusal) : List (String × Json) :=
  [("code", .ofInt e.code), ("message", .string e.message)] ++
    Json.optionalMember "data" (fun v => v) e.data

/-- The form in which a node's error is written. -/
def toJson (e : Refusal) : Json := .ofMembers e.members

/-- The fields of a node's error found so far. -/
structure Fields where
  code : Option Int
  message : Option String
  data : Option Json
  deriving Inhabited

/-- The fields of a node's error. -/
def fields : List (Shape.Field Fields) :=
  [ .of "code" .int64 fun v s => { s with code := some v },
    .of "message" .string fun v s => { s with message := some v },
    .of "data" (.optional .json) fun v s => { s with data := v } ]

/-- The error that the fields found come to. -/
def ofFields (s : Fields) : Except Fault Refusal := do
  return ⟨← Shape.required s.code, ← Shape.required s.message, s.data⟩

/-- A node's error. -/
def shape : Shape Refusal := .record fields ⟨none, none, none⟩ ofFields

end Refusal

/-- A response. -/
structure Response where
  jsonrpc : String
  id : Json
  result : Option Json
  error : Option Refusal
  deriving Inhabited

namespace Response

/-- The fields of a response found so far. -/
structure Fields where
  jsonrpc : Option String
  id : Option Json
  result : Option Json
  error : Option Refusal
  deriving Inhabited

/-- The fields of a response. -/
def fields : List (Shape.Field Fields) :=
  [ .of "jsonrpc" .string fun v s => { s with jsonrpc := some v },
    .of "id" .json fun v s => { s with id := some v },
    .of "result" (.optional .json) fun v s => { s with result := v },
    .of "error" (.optional Refusal.shape) fun v s => { s with error := v } ]

/-- The response that the fields found come to. -/
def ofFields (s : Fields) : Except Fault Response := do
  return ⟨← Shape.required s.jsonrpc, ← Shape.required s.id, s.result, s.error⟩

/-- A response.  Neither the version nor the number is looked at. -/
def shape : Shape Response := .record fields ⟨none, none, none, none⟩ ofFields

/-- The response that a text is. -/
def parse (text : String) : Except Fault Response := shape.parse text

/-- The members of a response as it is written. -/
def members (r : Response) : List (String × Json) :=
  [("jsonrpc", .string r.jsonrpc), ("id", r.id)] ++
    Json.optionalMember "result" (fun v => v) r.result ++
    Json.optionalMember "error" Refusal.toJson r.error

/-- The form in which a response is written. -/
def toJson (r : Response) : Json := .ofMembers r.members

/-- What a response comes to: the node's error if it has one, otherwise the result, `null` if
there is none. -/
def outcome (r : Response) : Except Refusal Json :=
  match r.error with
  | some e => .error e
  | none => .ok (r.result.getD .null)

end Response

end LedgerIndex.Node
