/-!
# JSON values

A value as the ledger's node, the logs and the subscribers exchange it.  The members of an
object are kept in ascending order of their names, each name once, so that two values are
equal exactly when they differ in nothing but the order and repetition of members in some
text.  Numbers keep apart the integers of 64 bits and the doubles.
-/

namespace LedgerIndex

/-- A JSON number.  An integer is one that was written without a fraction or an exponent and
fits 64 bits, signed or unsigned; everything else is a double, given by its bits. -/
inductive Number where
  | int (i : Int)
  | double (bits : UInt64)
  deriving DecidableEq, Repr, Inhabited

namespace Number

/-- The number as an unsigned integer of 64 bits.  A double never is one. -/
def toUInt64? : Number → Option UInt64
  | int (.ofNat n) => if n < UInt64.size then some (.ofNat n) else none
  | _ => none

/-- The integer that an unsigned word stands for. -/
def ofUInt64 (n : UInt64) : Number := int n.toNat

/-- The double that is zero with a sign. -/
def minusZero : Number := double (.ofNat (Nat.pow 2 63))

/-- The double with the bits of `x`. -/
def ofFloat (x : Float) : Number := double x.toBits

theorem toUInt64?_ofUInt64 (n : UInt64) : (ofUInt64 n).toUInt64? = some n := by
  simp [ofUInt64, toUInt64?, UInt64.toNat_lt_size]

end Number

/-- A JSON value. -/
inductive Json where
  | null
  | bool (b : Bool)
  | number (n : Number)
  | string (s : String)
  | array (items : List Json)
  | object (members : List (String × Json))
  deriving Inhabited

namespace Json

/-! ## Objects -/

/-- Puts a member in its place by name.  A member that had the name before is replaced. -/
def insertMember (name : String) (value : Json) :
    List (String × Json) → List (String × Json)
  | [] => [(name, value)]
  | (other, old) :: rest =>
    if name < other then (name, value) :: (other, old) :: rest
    else if name = other then (name, value) :: rest
    else (other, old) :: insertMember name value rest

/-- The object with the given members; of two with one name the later counts. -/
def ofMembers (members : List (String × Json)) : Json :=
  object (members.foldl (fun acc m => insertMember m.1 m.2 acc) [])

/-- The value of the member called `name`. -/
def member? (name : String) : List (String × Json) → Option Json
  | [] => none
  | (other, value) :: rest => if name = other then some value else member? name rest

/-- The member called `name` of an object; values of other kinds have none. -/
def get? (name : String) : Json → Option Json
  | object members => member? name members
  | _ => none

/-! ## Looking at a value as one kind -/

/-- The text of a string. -/
def string? : Json → Option String
  | string s => some s
  | _ => none

/-- The items of an array. -/
def items? : Json → Option (List Json)
  | array items => some items
  | _ => none

/-- An integer number as an unsigned word of 64 bits. -/
def uint64? : Json → Option UInt64
  | number n => n.toUInt64?
  | _ => none

/-! ## Making values -/

/-- The integer number of an unsigned word. -/
def ofUInt64 (n : UInt64) : Json := number (.ofUInt64 n)

/-- An integer number. -/
def ofInt (i : Int) : Json := number (.int i)

/-- `null` for nothing. -/
def ofOption (f : α → Json) : Option α → Json
  | none => null
  | some a => f a

/-- A member that is left out when there is nothing to tell. -/
def optionalMember (name : String) (f : α → Json) : Option α → List (String × Json)
  | none => []
  | some a => [(name, f a)]

end Json

end LedgerIndex
