import LedgerIndex.Sql.Statement

/-!
# Text and parameters of statements

How statements are written for a remote server.  Parameters are numbered from one; a statement
that inserts several rows goes on numbering from row to row.
-/

namespace LedgerIndex

/-- A parameter bound to a statement. -/
inductive Param where
  | int (i : Int)
  | text (s : String)
  | null
  | json (v : Json)
  /-- a time in milliseconds -/
  | time (ms : Int)
  deriving Inhabited

namespace Param

/-- A checkpoint as a signed word. -/
def checkpoint (c : UInt64) : Param := int c.toInt64.toInt

/-- A text, or NULL. -/
def column : Option String → Param
  | some s => text s
  | none => null

end Param

namespace Statement

/-! ## Parameters -/

/-- Parameters for a row of the call log. -/
def callParams (r : CallRecord) : List Param :=
  [.text r.sender, .checkpoint r.checkpoint, .text r.digest, .text r.package, .text r.module,
    .text r.function, .json r.arguments, .text r.cursor, .time r.createdAt]

/-- Parameters for a row of the event log. -/
def eventParams (r : EventRecord) : List Param :=
  [.text r.sender, .checkpoint r.checkpoint, .text r.digest, .text r.name, .text r.rawName,
    .json r.value, .time r.createdAt]

/-- Parameters for a row of the staging table. -/
def stageParams (c : Change) : List Param :=
  [.text c.key.name, .column c.key.key1, .column c.key.key2, .json (c.value.getD .null),
    .checkpoint c.checkpoint, .text c.digest]

/-- The parameters of a statement, in the order of their numbers. -/
def params : Statement → List Param
  | insertCalls rows => rows.flatMap callParams
  | insertEvents rows => rows.flatMap eventParams
  | stage sets => sets.flatMap stageParams
  | updateFromStage now => [.time now]
  | insertFromStage now => [.time now]
  | tombstone now c =>
    [.checkpoint c.checkpoint, .text c.digest, .time now, .text c.key.name, .column c.key.key1,
      .column c.key.key2]
  | upsertCursor now indexer c =>
    [.text indexer, .text c.digest, .checkpoint c.checkpoint, .time now]
  | deleteCursor indexer => [.text indexer]
  | selectCursor indexer => [.text indexer]
  | selectRow key => [.text key.name, .column key.key1, .column key.key2]
  | selectRowsAfter name after limit => [.text name, .int after, .int limit.toInt64.toInt]
  | selectRowsByField name field expected => [.text name, .text field, .text expected]
  | selectEvents name limit => [.text name, .int limit.toInt64.toInt]
  | _ => []

/-! ## Text -/

/-- The statements that set up the tables and indexes, in order. -/
def schemaTexts : List String :=
  [ "CREATE TABLE IF NOT EXISTS transactions ( id BIGSERIAL PRIMARY KEY, sender TEXT NOT " ++
      "NULL, checkpoint BIGINT NOT NULL, digest TEXT NOT NULL, package TEXT NOT NULL, module " ++
      "TEXT NOT NULL, function TEXT NOT NULL, arguments JSONB NOT NULL, cursor TEXT NOT " ++
      "NULL, created_at BIGINT NOT NULL )",
    "CREATE TABLE IF NOT EXISTS domain_events ( id BIGSERIAL PRIMARY KEY, sender TEXT NOT " ++
      "NULL, checkpoint BIGINT NOT NULL, digest TEXT NOT NULL, name TEXT NOT NULL, raw_name " ++
      "TEXT NOT NULL, value JSONB NOT NULL, created_at BIGINT NOT NULL )",
    "CREATE TABLE IF NOT EXISTS state_records ( id BIGSERIAL PRIMARY KEY, name TEXT NOT " ++
      "NULL, key1 TEXT, key2 TEXT, value JSONB NOT NULL, last_update_checkpoint BIGINT NOT " ++
      "NULL, last_update_digest TEXT NOT NULL, is_removed BOOLEAN NOT NULL DEFAULT FALSE, " ++
      "created_at BIGINT NOT NULL, updated_at BIGINT NOT NULL )",
    "CREATE UNIQUE INDEX IF NOT EXISTS idx_state_records_key ON state_records (name, key1, " ++
      "key2) NULLS NOT DISTINCT",
    "CREATE TABLE IF NOT EXISTS sync_cursor ( indexer_id TEXT PRIMARY KEY, digest TEXT NOT " ++
      "NULL, checkpoint BIGINT NOT NULL, updated_at BIGINT NOT NULL )",
    "CREATE INDEX IF NOT EXISTS idx_transactions_checkpoint ON transactions (checkpoint)",
    "CREATE INDEX IF NOT EXISTS idx_domain_events_name ON domain_events (name)" ]

/-- The columns of a table in which a statement inserts. -/
def columnList (columns : List String) : String := "(" ++ ", ".intercalate columns ++ ")"

/-- The numbers of a row of parameters, counted on from `first`. -/
def placeholders (first count : Nat) : String :=
  columnList ((List.range count).map fun i => "$" ++ toString (first + i))

/-- An insert of so many rows. -/
def insertText (table : String) (columns : List String) (rows : Nat) : String :=
  "INSERT INTO " ++ table ++ " " ++ columnList columns ++ " VALUES " ++
    ", ".intercalate ((List.range rows).map fun i =>
      placeholders (i * columns.length + 1) columns.length)

/-- Columns of the call log. -/
def callColumns : List String :=
  ["sender", "checkpoint", "digest", "package", "module", "function", "arguments", "cursor",
    "created_at"]

/-- Columns of the event log. -/
def eventColumns : List String :=
  ["sender", "checkpoint", "digest", "name", "raw_name", "value", "created_at"]

/-- Columns of the staging table. -/
def stageColumns : List String := ["name", "key1", "key2", "value", "checkpoint", "digest"]

/-- A query for whole rows. -/
def selectRows (condition : String) : String :=
  "SELECT id, name, key1, key2, value, last_update_checkpoint, last_update_digest, " ++
    "is_removed, created_at, updated_at FROM state_records WHERE name = $1 AND " ++ condition

/-- The text of a statement, with single blanks. -/
def text : Statement → String
  | begin => "BEGIN"
  | commit => "COMMIT"
  | rollback => "ROLLBACK"
  | schema index => schemaTexts.getD index ""
  | insertCalls rows => insertText "transactions" callColumns rows.length
  | insertEvents rows => insertText "domain_events" eventColumns rows.length
  | createStage =>
    "CREATE TEMP TABLE IF NOT EXISTS state_stage ( name TEXT NOT NULL, key1 TEXT, key2 " ++
      "TEXT, value JSONB NOT NULL, checkpoint BIGINT NOT NULL, digest TEXT NOT NULL ) ON " ++
      "COMMIT DELETE ROWS"
  | stage sets => insertText "state_stage" stageColumns sets.length
  | updateFromStage _ =>
    "UPDATE state_records r SET value = s.value, last_update_checkpoint = s.checkpoint, " ++
      "last_update_digest = s.digest, is_removed = FALSE, updated_at = $1 FROM state_stage s " ++
      "WHERE r.name = s.name AND r.key1 IS NOT DISTINCT FROM s.key1 AND r.key2 IS NOT " ++
      "DISTINCT FROM s.key2 AND r.last_update_checkpoint < s.checkpoint"
  | insertFromStage _ =>
    "INSERT INTO state_records (name, key1, key2, value, last_update_checkpoint, " ++
      "last_update_digest, is_removed, created_at, updated_at) SELECT s.name, s.key1, " ++
      "s.key2, s.value, s.checkpoint, s.digest, FALSE, $1, $1 FROM state_stage s WHERE NOT " ++
      "EXISTS ( SELECT 1 FROM state_records r WHERE r.name = s.name AND r.key1 IS NOT " ++
      "DISTINCT FROM s.key1 AND r.key2 IS NOT DISTINCT FROM s.key2 )"
  | tombstone _ _ =>
    "UPDATE state_records SET is_removed = TRUE, last_update_checkpoint = $1, " ++
      "last_update_digest = $2, updated_at = $3 WHERE name = $4 AND key1 IS NOT DISTINCT " ++
      "FROM $5 AND key2 IS NOT DISTINCT FROM $6 AND last_update_checkpoint <= $1"
  | upsertCursor _ _ _ =>
    "INSERT INTO sync_cursor (indexer_id, digest, checkpoint, updated_at) VALUES ($1, $2, " ++
      "$3, $4) ON CONFLICT (indexer_id) DO UPDATE SET digest = EXCLUDED.digest, checkpoint = " ++
      "EXCLUDED.checkpoint, updated_at = EXCLUDED.updated_at"
  | deleteCursor _ => "DELETE FROM sync_cursor WHERE indexer_id = $1"
  | selectCursor _ =>
    "SELECT indexer_id, digest, checkpoint, updated_at FROM sync_cursor WHERE indexer_id = $1"
  | selectRow _ => selectRows "key1 IS NOT DISTINCT FROM $2 AND key2 IS NOT DISTINCT FROM $3"
  | selectRowsAfter _ _ _ => selectRows "NOT is_removed AND id > $2 ORDER BY id LIMIT $3"
  | selectRowsByField _ _ _ => selectRows "NOT is_removed AND value ->> $2 = $3 ORDER BY id"
  | selectEvents _ _ =>
    "SELECT sender, checkpoint, digest, name, raw_name, value, created_at FROM " ++
      "domain_events WHERE name = $1 ORDER BY id DESC LIMIT $2"
  | selectCounts =>
    "SELECT (SELECT COUNT(*) FROM transactions) AS transactions, (SELECT COUNT(*) FROM " ++
      "domain_events) AS domain_events, (SELECT COUNT(*) FROM state_records) AS " ++
      "state_records, (SELECT COUNT(*) FROM state_records WHERE NOT is_removed) AS " ++
      "live_state_records"
  | clear =>
    "TRUNCATE transactions, domain_events, state_records, sync_cursor RESTART IDENTITY"

/-- The statement asks for rows. -/
def isSelect : Statement → Bool
  | selectCursor _ | selectRow _ | selectRowsAfter _ _ _ | selectRowsByField _ _ _
  | selectEvents _ _ | selectCounts => true
  | _ => false

/-- The statement bounds a transaction and takes no parameters. -/
def isBound : Statement → Bool
  | begin | commit | rollback => true
  | _ => false

/-- The statement sets up the schema. -/
def isSchema : Statement → Bool
  | schema _ => true
  | _ => false

end Statement

end LedgerIndex
