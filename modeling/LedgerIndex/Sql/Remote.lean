import LedgerIndex.Sql.Text

/-!
# The remote relational store

A store kept by a database server.  Every operation is a conversation: a statement is sent, and
rows or a failure come back.  A batch is sent in one transaction; after the first failure
nothing of it is sent any more but the order to roll back.
-/

namespace LedgerIndex

/-- A failure that the server reports. -/
structure ServerFailure where
  text : String
  deriving DecidableEq, Repr, Inhabited

/-- The error that a failure of the server is. -/
def ServerFailure.toError (f : ServerFailure) : Error :=
  .storage ("error returned from database: " ++ f.text)

/-- A row that the server returns: its columns by name. -/
abbrev ServerRow := List (String × Json)

/-- A database server, as one who sends it statements sees it. -/
class SqlServer (π : Type) where
  execute : Statement → π → Except ServerFailure (List ServerRow) × π

namespace Remote

variable {π : Type} [SqlServer π]

/-! ## Columns -/

/-- A column as a text, if it is not NULL. -/
def textColumn? (name : String) (r : ServerRow) : Option String :=
  (Json.member? name r).bind Json.string?

/-- A column as a text. -/
def textColumn (name : String) (r : ServerRow) : String := (textColumn? name r).getD ""

/-- A column as an integer. -/
def intColumn (name : String) (r : ServerRow) : Int :=
  match Json.member? name r with
  | some (.number (.int i)) => i
  | _ => 0

/-- A column as an unsigned word, stored as a signed one. -/
def wordColumn (name : String) (r : ServerRow) : UInt64 := (Int64.ofInt (intColumn name r)).toUInt64

/-- A column as a JSON value; NULL is `null`. -/
def jsonColumn (name : String) (r : ServerRow) : Json := (Json.member? name r).getD .null

/-- A column as a truth value. -/
def boolColumn (name : String) (r : ServerRow) : Bool :=
  match Json.member? name r with
  | some (.bool b) => b
  | _ => false

/-- The row of a table that the server returned. -/
def readRow (r : ServerRow) : Row :=
  { id := intColumn "id" r
    name := textColumn "name" r
    key1 := textColumn? "key1" r
    key2 := textColumn? "key2" r
    value := jsonColumn "value" r
    checkpoint := wordColumn "last_update_checkpoint" r
    digest := textColumn "last_update_digest" r
    isRemoved := boolColumn "is_removed" r }

/-- The log entry that the server returned. -/
def readEvent (r : ServerRow) : EventRecord :=
  ⟨textColumn "sender" r, wordColumn "checkpoint" r, textColumn "digest" r, textColumn "name" r,
    textColumn "raw_name" r, jsonColumn "value" r, intColumn "created_at" r⟩

/-- The cursor that the server returned. -/
def readCursor (r : ServerRow) : StoredCursor :=
  ⟨textColumn "indexer_id" r, ⟨textColumn "digest" r, wordColumn "checkpoint" r⟩,
    intColumn "updated_at" r⟩

/-- The sizes of the tables that the server returned. -/
def readCounts (r : ServerRow) : Counts :=
  ⟨(wordColumn "transactions" r).toNat, (wordColumn "domain_events" r).toNat,
    (wordColumn "state_records" r).toNat, (wordColumn "live_state_records" r).toNat⟩

/-! ## Conversations -/

/-- Sends a statement. -/
def send (s : Statement) (server : π) : Except Error (List ServerRow) × π :=
  match SqlServer.execute s server with
  | (.ok rows, server) => (.ok rows, server)
  | (.error f, server) => (.error f.toError, server)

/-- Sends statements in order, up to the first that fails. -/
def sendAll : List Statement → π → Except Error Unit × π
  | [], server => (.ok (), server)
  | s :: rest, server =>
    match send s server with
    | (.ok _, server) => sendAll rest server
    | (.error e, server) => (.error e, server)

/-- Sends statements as one transaction.  After a failure, be it that of the beginning or of the
commit, only the order to roll back is sent. -/
def transact (body : List Statement) (server : π) : Except Error Unit × π :=
  match sendAll (.begin :: body ++ [.commit]) server with
  | (.ok (), server) => (.ok (), server)
  | (.error e, server) => (.error e, (send .rollback server).2)

/-- Sends a statement for its effect. -/
def command (s : Statement) (server : π) : Except Error Unit × π :=
  let (answer, server) := send s server
  (answer.map fun _ => (), server)

/-- Sends a query and reads all rows. -/
def query (read : ServerRow → α) (s : Statement) (server : π) : Except Error (List α) × π :=
  let (answer, server) := send s server
  (answer.map (·.map read), server)

/-- Sends a query and reads the first row, if there is one. -/
def queryFirst (read : ServerRow → α) (s : Statement) (server : π) :
    Except Error (Option α) × π :=
  let (answer, server) := send s server
  (answer.map fun rows => rows.head?.map read, server)

/-- Takes in a batch. -/
def commit (now : Int) (indexer : String) (b : Batch) (server : π) :
    Except Error CommitSummary × π :=
  let (answer, server) := transact (Statement.ofBatch now indexer b) server
  (answer.map fun () => Statement.summary b, server)

/-- Sizes of the tables.  The server always has an answer to this. -/
def counts (server : π) : Except Error Counts × π :=
  match queryFirst readCounts .selectCounts server with
  | (.ok (some counts), server) => (.ok counts, server)
  | (.ok none, server) =>
    (.error (.storage "no rows returned by a query that expected to return at least one row"),
      server)
  | (.error e, server) => (.error e, server)

/-- Sets up tables and indexes. -/
def setUp (server : π) : Except Error Unit × π :=
  sendAll ((List.range Statement.schemaTexts.length).map .schema) server

/-- Connects to a server, which may refuse, and sets up tables and indexes. -/
def connect (refusal : Option ServerFailure) (server : π) : Except Error Unit × π :=
  match refusal with
  | some f =>
    (.error (.storage ("postgres connect: error returned from database: " ++ f.text)), server)
  | none => setUp server

end Remote

/-- The store that a server keeps. -/
structure RemoteStore (π : Type) where
  server : π
  deriving Inhabited

namespace RemoteStore

/-- An operation on the server as one on the store. -/
def run (f : π → α × π) (s : RemoteStore π) : α × RemoteStore π :=
  let (answer, server) := f s.server
  (answer, ⟨server⟩)

end RemoteStore

instance {π : Type} [SqlServer π] : TableStore (RemoteStore π) where
  loadCursor indexer :=
    RemoteStore.run (Remote.queryFirst Remote.readCursor (.selectCursor indexer))
  commit now indexer b := RemoteStore.run (Remote.commit now indexer b)
  saveCursor now indexer c := RemoteStore.run (Remote.command (.upsertCursor now indexer c))
  deleteCursor indexer := RemoteStore.run (Remote.command (.deleteCursor indexer))
  row? key := RemoteStore.run (Remote.queryFirst Remote.readRow (.selectRow key))
  rowsAfter name after limit :=
    RemoteStore.run
      (Remote.query Remote.readRow (.selectRowsAfter name (after.getD 0) (.ofNat limit)))
  rowsByField name field expected :=
    RemoteStore.run (Remote.query Remote.readRow (.selectRowsByField name field expected))
  lastEvents name limit :=
    RemoteStore.run (Remote.query Remote.readEvent (.selectEvents name (.ofNat limit)))
  counts := RemoteStore.run Remote.counts
  clear := RemoteStore.run (Remote.command .clear)

end LedgerIndex
