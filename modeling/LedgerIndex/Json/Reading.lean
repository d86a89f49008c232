import LedgerIndex.Json.Basic
import LedgerIndex.Json.Fault

/-!
# Readings of a JSON text

A reading is what a text says as far as it could be read: a tree in the order of the text, with
repeated members kept, whose last branch ends in a break where the text stops being JSON.
Whoever wants a value of some shape walks the reading in that order, so that the first problem
of the text decides, be it a break or a value of the wrong kind.

A value that is only skipped is held to less than one that is kept: its strings may hold half a
surrogate pair, its numbers may be too large for a double, and it may be nested to any depth.
-/

namespace LedgerIndex

/-- How an array or object ends.  A break tells what is wrong for one who keeps the value and for
one who skips it. -/
inductive Ending where
  | closed
  | broken (kept skipped : Fault)
  deriving DecidableEq, Repr, Inhabited

/-- What a text says as far as it could be read. -/
inductive Reading where
  | null
  | bool (b : Bool)
  /-- nothing for a number too large for a double -/
  | number (n : Option Number)
  /-- a fault for a string with half a surrogate pair -/
  | string (s : Except Fault String)
  | array (items : List Reading) (ending : Ending)
  | object (members : List (Except Fault String × Reading)) (ending : Ending)
  /-- no value: the text breaks here, for one who keeps the value and for one who skips it -/
  | broken (kept skipped : Fault)
  deriving Inhabited

namespace Ending

/-- What the end of a kept array or object comes to. -/
def keep : Ending → Except Fault Unit
  | closed => .ok ()
  | broken kept _ => .error kept

/-- What the end of a skipped array or object comes to. -/
def skip : Ending → Except Fault Unit
  | closed => .ok ()
  | broken _ skipped => .error skipped

end Ending

namespace Reading

/-! ## Skipping -/

mutual
/-- Passes over a value that nobody wants. -/
def skip : Reading → Except Fault Unit
  | array items ending => skipItems items ending
  | object members ending => skipMembers members ending
  | broken _ skipped => .error skipped
  | _ => .ok ()
/-- Passes over the rest of an array. -/
def skipItems : List Reading → Ending → Except Fault Unit
  | [], ending => ending.skip
  | item :: rest, ending => do item.skip; skipItems rest ending
/-- Passes over the rest of an object. -/
def skipMembers : List (Except Fault String × Reading) → Ending → Except Fault Unit
  | [], ending => ending.skip
  | (_, value) :: rest, ending => do value.skip; skipMembers rest ending
end

/-- What is wrong with a value where one of another kind is wanted.  Numbers and strings are read
to their end before they are found to be of the wrong kind, arrays and objects are not. -/
def misfit : Reading → Fault
  | broken kept _ => kept
  | number none => .malformed
  | string (.error fault) => fault
  | _ => .mismatch

/-! ## Keeping -/

mutual
/-- The value that a reading holds, when at most `room` brackets may be open at once. -/
def json (room : Nat) : Reading → Except Fault Json
  | null => .ok .null
  | bool b => .ok (.bool b)
  | number (some n) => .ok (.number n)
  | number none => .error .malformed
  | string s => s.map .string
  | array items ending =>
    match room with
    | 0 => .error .malformed
    | room + 1 => (jsonItems room items ending).map .array
  | object members ending =>
    match room with
    | 0 => .error .malformed
    | room + 1 => (jsonMembers room members ending).map .ofMembers
  | broken kept _ => .error kept
/-- The values of the rest of an array. -/
def jsonItems (room : Nat) : List Reading → Ending → Except Fault (List Json)
  | [], ending => ending.keep.map fun _ => []
  | item :: rest, ending => do
    let first ← item.json room
    return first :: (← jsonItems room rest ending)
/-- The members of the rest of an object, in the order of the text. -/
def jsonMembers (room : Nat) :
    List (Except Fault String × Reading) → Ending → Except Fault (List (String × Json))
  | [], ending => ending.keep.map fun _ => []
  | (name, value) :: rest, ending => do
    let name ← name
    let first ← value.json room
    return (name, first) :: (← jsonMembers room rest ending)
end

/-! ## The reading of a value -/

mutual
/-- The reading of a text that holds just this value. -/
def ofJson : Json → Reading
  | .null => null
  | .bool b => bool b
  | .number n => number (some n)
  | .string s => string (.ok s)
  | .array items => array (ofItems items) .closed
  | .object members => object (ofMembers members) .closed
/-- The readings of the items of an array. -/
def ofItems : List Json → List Reading
  | [] => []
  | item :: rest => ofJson item :: ofItems rest
/-- The readings of the members of an object. -/
def ofMembers : List (String × Json) → List (Except Fault String × Reading)
  | [] => []
  | (name, value) :: rest => (.ok name, ofJson value) :: ofMembers rest
end

end Reading

end LedgerIndex
