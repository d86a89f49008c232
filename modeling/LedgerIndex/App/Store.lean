import LedgerIndex.App.DatabaseUrl
import LedgerIndex.App.Settings
import LedgerIndex.Sql.ReadOnly
import LedgerIndex.Sql.Remote
import LedgerIndex.Store.Memory

/-!
# Opening a store

Which store the settings name, and where it is: in memory, in a file, or on a server.  The machine
the program runs on keeps files in one directory, and can reach at most one server.
-/

namespace LedgerIndex.App

/-! ## The machine -/

/-- A file. -/
inductive File where
  | text (s : String)
  | database (t : Sql.Tables)
  deriving Inhabited

/-- A machine to run on, with a node and a database server in its network. -/
structure Host (η π : Type) where
  /-- the files of the working directory -/
  files : List (String × File)
  environment : List (String × String)
  /-- what answers at the URL of a node -/
  node : String → η
  /-- the URL of the database server, if there is one -/
  databaseUrl : Option String
  /-- the server refuses connections -/
  refusal : Option ServerFailure
  database : π

/-- The name in the working directory that a path leads to, if it leads there. -/
def fileName? (path : String) : Option String :=
  let parts := (path.toList.splitOn '/').filter fun part => part ≠ [] ∧ part ≠ ['.']
  match path.toList, parts with
  | '/' :: _, _ => none
  | cs, [part] =>
    if part = ['.', '.'] ∨ cs.getLast? = some '/' ∨ ['.', '/'] = cs.reverse.take 2 then none
    else some (String.ofList part)
  | _, _ => none

namespace Host

variable {η π : Type}

/-- The file with a name. -/
def named? (h : Host η π) (name : String) : Option File :=
  (h.files.find? (·.1 == name)).map (·.2)

/-- The file that a path leads to. -/
def file? (h : Host η π) (path : String) : Option File :=
  (h.named? path).or ((fileName? path).bind h.named?)

/-- Writes a file. -/
def write (h : Host η π) (name : String) (f : File) : Host η π :=
  { h with files := (name, f) :: h.files.filter (·.1 != name) }

/-- The value of a variable of the environment. -/
def environmentValue? (h : Host η π) (name : String) : Option String :=
  (h.environment.find? (·.1 == name)).map (·.2)

end Host

/-! ## Stores -/

/-- A store of any kind.  An embedded one may be kept in a file, which may be only readable. -/
inductive Store (π : Type) where
  | memory (m : Memory)
  | embedded (file : Option String) (t : Sql.Tables)
  | frozen (t : Sql.ReadOnly)
  | remote (s : RemoteStore π)

namespace Store

variable {π : Type}

/-- An operation of each kind of store as one of any store. -/
def run [SqlServer π] (f : (σ : Type) → [TableStore σ] → σ → α × σ) : Store π → α × Store π
  | memory m => let (a, m) := f Memory m; (a, memory m)
  | embedded file t => let (a, t) := f Sql.Tables t; (a, embedded file t)
  | frozen t => let (a, t) := f Sql.ReadOnly t; (a, frozen t)
  | remote s => let (a, s) := f (RemoteStore π) s; (a, remote s)

instance [SqlServer π] : TableStore (Store π) where
  loadCursor indexer := run fun _ => CommitStore.loadCursor indexer
  commit now indexer b := run fun _ => CommitStore.commit now indexer b
  saveCursor now indexer c := run fun _ => TableStore.saveCursor now indexer c
  deleteCursor indexer := run fun _ => TableStore.deleteCursor indexer
  row? key := run fun _ => TableStore.row? key
  rowsAfter name after limit := run fun _ => TableStore.rowsAfter name after limit
  rowsByField name field expected := run fun _ => TableStore.rowsByField name field expected
  lastEvents name limit := run fun _ => TableStore.lastEvents name limit
  counts := run fun _ => TableStore.counts
  clear := run fun _ => TableStore.clear

end Store

/-! ## Opening -/

/-- The most bytes that the name of a file may have. -/
def maxNameBytes : Nat := 255

/-- What the name of the journal of a database ends in. -/
def journalEnding : String := "-journal"

namespace Host

variable {η π : Type}

/-- Follows a path to a database: the names on the way, the last of them first.  A name is left
again by two dots whether it is there or not, but nothing is looked for in a file. -/
def walk (h : Host η π) : List (List Char) → List (List Char) → Option (List (List Char))
  | names, [] => some names
  | names, part :: rest =>
    if part = [] ∨ part = ['.'] then h.walk names rest
    else if part = ['.', '.'] then
      match names with
      | [] => none
      | _ :: names => h.walk names rest
    else if maxNameBytes < (String.ofList part).utf8ByteSize then none
    else
      match names with
      | [name] =>
        if (h.named? (String.ofList name)).isSome then none else h.walk [part, name] rest
      | _ => h.walk (part :: names) rest

/-- The name in the working directory that a path to a database leads to, if it leads there.  There
has to be room for the name of the journal beside it. -/
def databaseName? (h : Host η π) (path : String) : Option String :=
  if path.toList.head? = some '/' then none
  else
    match h.walk [] (path.toList.splitOn '/') with
    | some [name] =>
      let name := String.ofList name
      if (name ++ journalEnding).utf8ByteSize ≤ maxNameBytes then some name else none
    | _ => none

/-- The embedded database with a name in the working directory, if it can be opened. -/
def embeddedFile? (h : Host η π) (name : String) (mode : OpenMode) : Option (Store π) :=
  match h.named? name, mode with
  | some (.database t), .readOnly => some (.frozen ⟨t⟩)
  | some (.database t), _ => some (.embedded (some name) t)
  | none, .create => some (.embedded (some name) .empty)
  | _, _ => none

/-- The embedded database that a URL names, if it can be opened.  One in memory is new, so its
tables have to be made, for which it must not be opened only to be read. -/
def embedded? (h : Host η π) (u : DatabaseUrl) : Option (Store π) :=
  if !u.isReachable then none
  else if u.isFleeting then
    if u.mode = .readOnly then none else some (.embedded none .empty)
  else if u.isShareable then (h.databaseName? u.path).bind fun name => h.embeddedFile? name u.mode
  else none

/-- Connects to the database server at a URL. -/
def connect [SqlServer π] (h : Host η π) (url : String) :
    Except String (Store π) × Host η π :=
  let failure := "connecting to postgres"
  if h.databaseUrl = some url then
    let (answer, database) := Remote.connect h.refusal h.database
    match answer with
    | .ok () => (.ok (.remote ⟨database⟩), { h with database })
    | .error _ => (.error failure, { h with database })
  else (.error failure, h)

/-- Opens the store that the settings name, or tells what failed. -/
def openStore [SqlServer π] (h : Host η π) (s : StorageSettings) :
    Except String (Store π) × Host η π :=
  match s.backend, s.url with
  | .memory, _ => (.ok (.memory .empty), h)
  | backend, none =>
    (.error ("storage.url is required for the " ++ backend.title ++ " backend"), h)
  | .sqlite, some url =>
    match (DatabaseUrl.ofSetting url).bind h.embedded? with
    | some store => (.ok store, h)
    | none => (.error "opening sqlite storage", h)
  | .postgres, some url => h.connect url

/-- Closes a store: what it holds is kept where it belongs. -/
def closeStore (h : Host η π) : Store π → Host η π
  | .memory _ | .embedded none _ | .frozen _ => h
  | .embedded (some name) t => h.write name (.database t)
  | .remote s => { h with database := s.server }

end Host

end LedgerIndex.App
