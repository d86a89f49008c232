import LedgerIndex.App.Arguments
import LedgerIndex.Json.Text
import LedgerIndex.Store.Basic
import LedgerIndex.Sync.Config

/-!
# Texts of the program

What the program prints: its version, how it is used, what it supports, and the state of a store.
-/

namespace LedgerIndex.App

/-- The name under which the program is called. -/
def programName : String := "schemaindex"

/-- The version of the program. -/
def version : String := "0.2.0"

/-- Lines, each with its end. -/
def lines (ls : List String) : String := String.join (ls.map (· ++ "\n"))

/-- What the program is for. -/
def aboutText : String := "Sui schema-table indexer with live subscriptions"

/-- What the version option prints. -/
def versionText : String := lines [programName ++ " " ++ version]

/-- What the program supports. -/
def infoText : String :=
  lines
    [ programName ++ " v" ++ version,
      "  Default page size: 50 transactions",
      "  Default poll interval: " ++ toString Sync.remotePollInterval ++ " ms (" ++
        toString Sync.localPollInterval ++ " ms for a local node)",
      "  Default progress interval: 10 s",
      "  Storage backends: memory, sqlite, postgres",
      "  Ledger: Sui JSON-RPC (suix_queryTransactionBlocks)",
      "  Event filter: ledger.event_filter (packages, type_names)",
      "  Subscriptions: WebSocket, \x7b\"type\":\"subscribe\",\"filters\":[...]\x7d" ]

/-! ## How the program is used -/

/-- What each command does. -/
def commandAbout : List (String × String) :=
  [ ("run", "Index the tracked schema object until interrupted"),
    ("status", "Show the stored cursor and table counts"),
    ("reset", "Delete all indexed data and the cursor"),
    ("info", "Show defaults and supported backends"),
    ("version", "Print version"),
    (helpCommand, "Print this message or the help of the given subcommand(s)") ]

/-- A line on an option: how it is written, what it does, and where its value comes from if it
is not given. -/
structure OptionLine where
  written : String
  about : String
  source : String
  deriving Repr, Inhabited

namespace OptionLine

/-- The option of the settings file. -/
def config : OptionLine :=
  ⟨"  -c, --config <CONFIG>", "Path to the YAML config file", "[default: schemaindex.yaml]"⟩

/-- The switch of a command. -/
def switch : String → List OptionLine
  | "run" => [⟨"      --force", "Clear all indexed data and the cursor before starting", ""⟩]
  | "status" => [⟨"      --json", "Output as JSON", ""⟩]
  | "reset" => [⟨"      --yes", "Confirm the reset", ""⟩]
  | _ => []

/-- The options that a variable of the environment may stand for, with its value. -/
def overrides (environmentValue? : String → Option String) : List OptionLine :=
  let shown (name : String) : String :=
    "[env: " ++ name ++ "=" ++ (environmentValue? name).getD "" ++ "]"
  [ ⟨"      --rpc-url <RPC_URL>", "Override \u0060ledger.rpc_url\u0060",
      shown "SCHEMAINDEX_RPC_URL"⟩,
    ⟨"      --database-url <DATABASE_URL>", "Override \u0060storage.url\u0060",
      shown "DATABASE_URL"⟩ ]

/-- The option that shows help. -/
def help : OptionLine := ⟨"  -h, --help", "Print help", ""⟩

/-- The option that shows the version. -/
def version : OptionLine := ⟨"  -V, --version", "Print version", ""⟩

/-- What stands beside the option. -/
def text (o : OptionLine) : String :=
  if o.source.isEmpty then o.about else o.about ++ " " ++ o.source

/-- The width of a page. -/
def pageWidth : Nat := 100

/-- The place that is taken beside a column of options. -/
def takenBeside (column : Nat) : Nat := column + 6

/-- What an option does has to stand below it: beside a wide column it is too long for the page. -/
def isTooLong (column : Nat) (o : OptionLine) : Bool :=
  2 * pageWidth < 5 * takenBeside column &&
    pageWidth - takenBeside column < o.about.length + o.source.length

end OptionLine

/-- Two columns, the first as wide as its longest entry. -/
def columns (rows : List (String × String)) : List String :=
  let width := rows.foldl (fun w r => max w r.1.length) 0
  rows.map fun (left, right) =>
    left ++ String.ofList (List.replicate (width - left.length) ' ') ++ "  " ++ right

/-- Options, with what they do beside them, or below them if it is too long for one of them. -/
def optionLines (os : List OptionLine) : List String :=
  let width := os.foldl (fun w o => max w o.written.length) 0
  if os.any (·.isTooLong width) then
    os.flatMap fun o => [o.written, String.ofList (List.replicate 10 ' ') ++ o.text]
  else columns (os.map fun o => (o.written, o.text))

/-- How the program is used. -/
def usageText (environmentValue? : String → Option String) : String :=
  lines
    ([aboutText, "", "Usage: " ++ programName ++ " [OPTIONS] <COMMAND>", "", "Commands:"] ++
      columns (commandAbout.map fun (name, about) => ("  " ++ name, about)) ++
      ["", "Options:"] ++
      optionLines (.config :: OptionLine.overrides environmentValue? ++ [.help, .version]))

/-- How a command is used. -/
def commandUsageText (environmentValue? : String → Option String) (name : String) : String :=
  let about := ((commandAbout.find? (·.1 == name)).map (·.2)).getD ""
  if name = helpCommand then
    lines
      [about, "", "Usage: " ++ programName ++ " help [COMMAND]...", "", "Arguments:",
        "  [COMMAND]...  Print help for the subcommand(s)"]
  else
    lines
      ([about, "", "Usage: " ++ programName ++ " " ++ name ++ " [OPTIONS]", "", "Options:"] ++
        optionLines (.config :: OptionLine.switch name ++
          OptionLine.overrides environmentValue? ++ [.help]))

/-! ## The state of a store -/

/-- A state of a store, as it is shown for an indexer. -/
structure StoreReport where
  indexer : String
  tracked : String
  cursor : Option StoredCursor
  counts : Counts
  deriving Inhabited

namespace StoreReport

/-- The report in lines. -/
def text (r : StoreReport) : String :=
  lines
    ([ "Indexer:        " ++ r.indexer, "Tracked object: " ++ r.tracked ] ++
      (match r.cursor with
        | none => ["Cursor:         (none, will start from genesis)"]
        | some c =>
          [ "Checkpoint:     " ++ toString c.cursor.checkpoint,
            "Cursor:         " ++ c.cursor.digest,
            "Updated at:     " ++ toString c.updatedAt ++ " ms" ]) ++
      [ "Transactions:   " ++ toString r.counts.calls,
        "Domain events:  " ++ toString r.counts.events,
        "State records:  " ++ toString r.counts.rows ++ " (" ++ toString r.counts.liveRows ++
          " live)" ])

/-- A stored cursor in JSON. -/
def cursorJson (c : StoredCursor) : Json :=
  .ofMembers
    [ ("indexer_id", .string c.indexer),
      ("cursor", .ofMembers
        [ ("digest", .string c.cursor.digest), ("checkpoint", .ofUInt64 c.cursor.checkpoint) ]),
      ("updated_at", .ofInt c.updatedAt) ]

/-- The report in JSON. -/
def toJson (r : StoreReport) : Json :=
  .ofMembers
    [ ("indexer", .string r.indexer), ("tracked_object", .string r.tracked),
      ("cursor", .ofOption cursorJson r.cursor),
      ("counts", .ofMembers
        [ ("transactions", .ofInt r.counts.calls), ("domain_events", .ofInt r.counts.events),
          ("state_records", .ofInt r.counts.rows),
          ("live_state_records", .ofInt r.counts.liveRows) ]) ]

end StoreReport

end LedgerIndex.App
