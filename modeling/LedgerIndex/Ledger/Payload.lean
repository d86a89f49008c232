import LedgerIndex.Json.Text
import LedgerIndex.Table.Key

/-!
# Payloads of events

The payload of an event is an object with a `name`.  A name that ends in the marker of log
entries makes it a log entry; any other name is a table, and the payload sets a row if it has a
`value`, be it `null`, and removes the row if it has none.
-/

namespace LedgerIndex

/-- The end of a name that marks a log entry. -/
def logMarker : List Char := ['_', 'e', 'v', 'e', 'n', 't']

/-- The name without the marker, if it has it. -/
def stripMarker? (name : String) : Option String :=
  let cs := name.toList
  if logMarker.isSuffixOf cs then some (.ofList (cs.take (cs.length - logMarker.length))) else none

/-- The text under which a key column is stored: a string as it is, any other value as compact
JSON, and nothing for `null` or no value at all. -/
def keyText : Option Json → Option String
  | none | some .null => none
  | some (.string s) => some s
  | some v => some v.text

/-- What an event says. -/
inductive Payload where
  /-- an entry of the log; the name is given without and with the marker -/
  | entry (name rawName : String) (value : Json)
  | set (key : Key) (value : Json)
  | remove (key : Key)
  deriving Inhabited

namespace Payload

/-- Why a value is no payload. -/
inductive Flaw where
  | notAnObject
  | noName
  deriving DecidableEq, Repr

/-- The text that tells of a flaw. -/
def Flaw.message : Flaw → String
  | notAnObject => "payload is not an object"
  | noName => "missing string field `name`"

/-- The payload that an object with the given members is. -/
def ofMembers (members : List (String × Json)) : Except Flaw Payload :=
  match Json.member? "name" members with
  | some (.string rawName) =>
    match stripMarker? rawName with
    | some name => .ok (.entry name rawName ((Json.member? "value" members).getD .null))
    | none =>
      let key : Key :=
        ⟨rawName, keyText (Json.member? "key1" members), keyText (Json.member? "key2" members)⟩
      match Json.member? "value" members with
      | some value => .ok (.set key value)
      | none => .ok (.remove key)
  | _ => .error .noName

/-- The payload that a value is. -/
def parse : Json → Except Flaw Payload
  | .object members => ofMembers members
  | _ => .error .notAnObject

end Payload

end LedgerIndex
