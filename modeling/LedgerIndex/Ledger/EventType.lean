/-!
# Types of events

An event has a type `package::module::…::Name`, possibly followed by type arguments in angle
brackets.  A filter on types looks at the package and the name only.
-/

namespace LedgerIndex

/-! ## Addresses -/

/-- Drops the mark of a hexadecimal number, once. -/
def dropHexMark : List Char → List Char
  | '0' :: 'x' :: rest => rest
  | cs => cs

/-- The digits that tell an address from others: without mark, leading zeros and case. -/
def addressDigits (address : String) : List Char :=
  ((dropHexMark address.toList).dropWhile (· == '0')).map Char.toLower

/-- Two texts are the same address. -/
def sameAddress (a b : String) : Bool := addressDigits a == addressDigits b

/-! ## Parts of a type -/

/-- Cuts a text at each pair of colons, from the left. -/
def segments : List Char → List (List Char)
  | [] => [[]]
  | ':' :: ':' :: rest => [] :: segments rest
  | c :: rest =>
    match segments rest with
    | [] => [[c]]
    | first :: others => (c :: first) :: others

/-- The segments of a type, its arguments left out. -/
def typeSegments (type : String) : List (List Char) :=
  segments (type.toList.takeWhile (· != '<'))

/-- The package of a type. -/
def typePackage (type : String) : String :=
  String.ofList ((typeSegments type).headD [])

/-- The name of a type, empty if the type is nothing but a package. -/
def typeName (type : String) : String :=
  String.ofList ((typeSegments type).tail.getLastD [])

/-! ## The filter -/

/-- The types of events that are wanted.  An empty list wants all. -/
structure TypeFilter where
  packages : List String
  names : List String
  deriving DecidableEq, Repr, Inhabited

namespace TypeFilter

/-- The filter that wants every type. -/
def all : TypeFilter := ⟨[], []⟩

/-- The filter wants every type. -/
def isEmpty (f : TypeFilter) : Bool := f.packages.isEmpty && f.names.isEmpty

/-- The filter wants events of this type. -/
def accepts (f : TypeFilter) (type : String) : Bool :=
  (f.packages.isEmpty || f.packages.any fun p => sameAddress p (typePackage type)) &&
    (f.names.isEmpty || f.names.any fun n => n == typeName type)

end TypeFilter

end LedgerIndex
