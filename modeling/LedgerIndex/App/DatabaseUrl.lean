import LedgerIndex.App.Percent
import LedgerIndex.Decimal.Word

/-!
# URLs of embedded databases

Where an embedded database is and how it is opened.  A URL gives a path, in which percent signs
stand for octets, and parameters.  A path that begins with `file:` is an address of its own, with
parameters of its own, which may only narrow what the URL allows.
-/

namespace LedgerIndex.App

/-- How a database is opened. -/
inductive OpenMode where
  | readOnly
  | readWrite
  /-- it is made if it is missing -/
  | create
  deriving DecidableEq, Repr, Inhabited

/-- A mode allows more than another the higher it stands. -/
def OpenMode.rank : OpenMode → Nat
  | readOnly => 0
  | readWrite => 1
  | create => 2

/-- What is opened: a file, or a database in memory that is to have its name. -/
structure DatabaseUrl where
  path : String
  mode : OpenMode
  inMemory : Bool
  /-- the file is taken to be out of reach of other programs -/
  isUnshared : Bool
  /-- the way to reach files, if one is named -/
  system : Option String
  deriving DecidableEq, Repr, Inhabited

namespace DatabaseUrl

/-- The path that stands for memory. -/
def memoryPath : String := ":memory:"

/-! ## Parameters of the URL -/

/-- Parameters found so far. -/
structure Parameters where
  isReadOnly : Bool
  isMade : Bool
  inMemory : Bool
  isImmutable : Bool
  system : Option String
  deriving Inhabited

namespace Parameters

/-- Takes up a parameter.  An unknown one, or an unknown value, spoils the URL. -/
def take (name value : String) (s : Parameters) : Option Parameters :=
  match name, value with
  | "mode", "ro" => some { s with isReadOnly := true }
  | "mode", "rw" => some s
  | "mode", "rwc" => some { s with isMade := true }
  | "mode", "memory" => some { s with inMemory := true }
  | "cache", "private" | "cache", "shared" => some s
  | "immutable", "true" | "immutable", "1" => some { s with isImmutable := true }
  | "immutable", "false" | "immutable", "0" => some { s with isImmutable := false }
  | "vfs", system => some { s with system := some system }
  | _, _ => none

/-- The text that a part of a parameter stands for; a plus sign is a space. -/
def decode (cs : List Char) : Option String :=
  Percent.decode (cs.map fun c => if c = '+' then ' ' else c)

/-- Takes up all parameters. -/
def takeAll : List (List Char × List Char) → Parameters → Option Parameters
  | [], s => some s
  | (name, value) :: rest, s => do
    takeAll rest (← s.take (← decode name) (← decode value))

/-- The mode that is meant: what is only to be read is never made. -/
def mode (s : Parameters) : OpenMode :=
  if s.isReadOnly then .readOnly else if s.isMade then .create else .readWrite

end Parameters

/-! ## Addresses of files -/

/-- The mark of an address. -/
def addressMark : List Char := "file:".toList

/-- The characters before the first that stands for the octet zero, which ends a part. -/
def beforeZero : List Char → List Char
  | '%' :: '0' :: '0' :: _ => []
  | c :: rest => c :: beforeZero rest
  | [] => []

/-- The part of an address after the mark and the name of the machine, which has to be this one. -/
def afterMachine : List Char → Option (List Char)
  | '/' :: '/' :: rest =>
    if ["", "localhost"].contains (String.ofList (rest.takeWhile (· != '/'))) then
      some (rest.dropWhile (· != '/'))
    else none
  | cs => some cs

/-- A switch is on. -/
def isOn (value : String) : Bool :=
  match value.toList.takeWhile Char.isDigit with
  | [] => ["on", "yes", "true"].contains value.toLower
  | digits => Decimal.value digits % 256 != 0

/-- Narrows the access by a mode that an address names. -/
def withMode (u : DatabaseUrl) (mode : OpenMode) : Option DatabaseUrl :=
  if u.inMemory || mode.rank ≤ u.mode.rank then some { u with mode, inMemory := false } else none

/-- Takes up a parameter of an address.  Unknown ones are skipped. -/
def takeOwn (u : DatabaseUrl) (name value : String) : Option DatabaseUrl :=
  match name, value with
  | "mode", "ro" => u.withMode .readOnly
  | "mode", "rw" => u.withMode .readWrite
  | "mode", "rwc" => u.withMode .create
  | "mode", "memory" => some { u with mode := .readWrite, inMemory := true }
  | "cache", "private" | "cache", "shared" => some u
  | "mode", _ | "cache", _ => none
  | "vfs", system => some { u with system := some system }
  | _, _ => some u

/-- Takes up all parameters of an address. -/
def takeAllOwn : List (String × String) → DatabaseUrl → Option DatabaseUrl
  | [], u => some u
  | (name, value) :: rest, u => do takeAllOwn rest (← u.takeOwn name value)

/-- What an address names, opened as far as a URL allows. -/
def ofAddress (u : DatabaseUrl) (cs : List Char) : Option DatabaseUrl := do
  let cs ← afterMachine (cs.takeWhile (· != '#'))
  let path ← Percent.decode (beforeZero (cs.takeWhile (· != '?')))
  let given ← (Percent.parameters ((cs.dropWhile (· != '?')).drop 1)).mapM fun (name, value) => do
    return (← Percent.decode (beforeZero name), ← Percent.decode (beforeZero value))
  let given := given.filter (·.1 ≠ "")
  let isSet (name : String) : Bool := (given.lookup name).any isOn
  takeAllOwn given { u with path, isUnshared := isSet "immutable" || isSet "nolock" }

/-! ## URLs -/

/-- Drops a beginning as often as it is there. -/
def dropAll (beginning : List Char) (cs : List Char) : List Char :=
  go cs.length cs
where
  /-- Drops it at most so many times. -/
  go : Nat → List Char → List Char
    | 0, cs => cs
    | n + 1, cs =>
      if beginning.isPrefixOf cs ∧ beginning ≠ [] then go n (cs.drop beginning.length) else cs

/-- The mark of a URL. -/
def urlMark : List Char := "sqlite:".toList

/-- The name of a database in memory that was given none. -/
def memoryName : String := "memory"

/-- What a URL names.  No name of a file holds the octet zero. -/
def ofUrl (url : List Char) : Option DatabaseUrl := do
  let rest := dropAll urlMark (dropAll (urlMark ++ ['/', '/']) url)
  let path := rest.takeWhile (· != '?')
  let isMemory := String.ofList path == memoryPath
  let path ← if isMemory then some memoryName else Percent.decode path
  let p ← Parameters.takeAll (Percent.parameters ((rest.dropWhile (· != '?')).drop 1))
    ⟨false, false, isMemory, false, none⟩
  let u : DatabaseUrl := ⟨path, p.mode, p.inMemory, p.isImmutable, p.system⟩
  if path.toList.contains '\x00' then none
  else if addressMark.isPrefixOf path.toList && !p.isImmutable && p.system.isNone then
    u.ofAddress (path.toList.drop addressMark.length)
  else some u

/-- What a setting names: a URL, or a path to a file that is made if need be. -/
def ofSetting (s : String) : Option DatabaseUrl :=
  if urlMark.isPrefixOf s.toList then ofUrl s.toList
  else ofUrl (urlMark ++ s.toList ++ "?mode=rwc".toList)

/-- The ways to reach files that let several connections share a database. -/
def sharingSystems : List String := ["unix", "unix-excl"]

/-- The way to reach files that keeps all of them in memory. -/
def memorySystem : String := "memdb"

/-- The database is kept in no file. -/
def isFleeting (u : DatabaseUrl) : Bool :=
  u.inMemory || u.path == memoryPath || u.path == "" || u.system == some memorySystem

/-- The database can be shared between connections, which a store in a file needs. -/
def isShareable (u : DatabaseUrl) : Bool := !u.isUnshared && u.system.all sharingSystems.contains

/-- The way to reach files is known. -/
def isReachable (u : DatabaseUrl) : Bool :=
  u.system.all fun system => system == memorySystem || sharingSystems.contains system

end DatabaseUrl

end LedgerIndex.App
