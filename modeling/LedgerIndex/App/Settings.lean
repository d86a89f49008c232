import LedgerIndex.Json.Record
import LedgerIndex.Sync.Config
import LedgerIndex.Yaml.Reader
import LedgerIndex.Yaml.Take

/-!
# Settings

The settings of the program as they stand in a file: which ledger to follow, where to store what
was found, and what to serve.  All but the ledger may be left out.
-/

namespace LedgerIndex.App

/-! ## The sections -/

/-- Which ledger to follow. -/
structure LedgerSettings where
  id : String
  url : String
  tracked : String
  pageSize : Nat
  /-- depends on the URL unless it is given -/
  pollInterval : Option Nat
  progressInterval : Nat
  events : TypeFilter
  start : Option UInt64
  deriving Inhabited

/-- The kinds of stores. -/
inductive Backend where
  | memory
  | sqlite
  | postgres
  deriving DecidableEq, Repr, Inhabited

namespace Backend

/-- The name of a kind of store in settings. -/
def name : Backend → String
  | memory => "memory"
  | sqlite => "sqlite"
  | postgres => "postgres"

/-- The name of a kind of store in messages. -/
def title : Backend → String
  | memory => "Memory"
  | sqlite => "Sqlite"
  | postgres => "Postgres"

/-- The kinds of stores by name. -/
def table : List (String × Backend) := [memory, sqlite, postgres].map fun b => (b.name, b)

end Backend

/-- Where to store what was found. -/
structure StorageSettings where
  backend : Backend
  /-- a file or the URL of a server -/
  url : Option String
  maxConnections : Nat
  deriving Inhabited

/-- Whom to tell of changes. -/
structure SubscriptionSettings where
  isEnabled : Bool
  bind : String
  maxClients : Nat
  /-- the most messages that wait for a client -/
  capacity : Nat
  deriving Inhabited

/-- Where to serve the status. -/
structure HttpSettings where
  isEnabled : Bool
  bind : String
  deriving Inhabited

/-- What to log. -/
structure LogSettings where
  level : String
  /-- levels of single components -/
  components : List (String × String)
  isJson : Bool
  deriving Inhabited

/-- All settings. -/
structure Settings where
  ledger : LedgerSettings
  storage : StorageSettings
  subscriptions : SubscriptionSettings
  http : HttpSettings
  logging : LogSettings
  deriving Inhabited

/-! ## What holds if nothing is said -/

/-- A ledger on this machine, of which no object is tracked yet. -/
def LedgerSettings.usual : LedgerSettings :=
  ⟨"default", "http://127.0.0.1:9000", "", 50, none, 10, .all, none⟩

/-- Nothing outlives the program. -/
def StorageSettings.usual : StorageSettings := ⟨.memory, none, 5⟩

/-- A thousand clients at most. -/
def SubscriptionSettings.usual : SubscriptionSettings := ⟨true, "0.0.0.0:8080", 1000, 256⟩

/-- The status is served. -/
def HttpSettings.usual : HttpSettings := ⟨true, "0.0.0.0:9184"⟩

/-- Everything of note is logged, as text. -/
def LogSettings.usual : LogSettings := ⟨"info", [], false⟩

/-- The settings if nothing is said. -/
def Settings.usual : Settings := ⟨.usual, .usual, .usual, .usual, .usual⟩

/-! ## Taking settings from YAML -/

open Yaml (Take)
open Yaml.Take (text bool word optional list oneOf)

/-- A filter on types. -/
def takeEvents : Take TypeFilter :=
  .record
    [ .of "packages" (list text) fun v (s : TypeFilter) => { s with packages := v },
      .of "type_names" (list text) fun v s => { s with names := v } ]
    .all some

/-- Which of the texts that have to be given were found so far. -/
structure LedgerSettings.Fields where
  found : LedgerSettings
  hasUrl : Bool
  hasTracked : Bool
  deriving Inhabited

/-- The section on the ledger.  Its URL and the tracked object have to be given. -/
def LedgerSettings.take : Take LedgerSettings :=
  .record
    [ .of "id" text fun v (s : Fields) => { s with found.id := v },
      .of "rpc_url" text fun v s => { s with found.url := v, hasUrl := true },
      .of "tracked_object" text fun v s => { s with found.tracked := v, hasTracked := true },
      .of "page_size" word fun v s => { s with found.pageSize := v },
      .of "poll_interval_ms" (optional word) fun v s => { s with found.pollInterval := v },
      .of "progress_interval_secs" word fun v s => { s with found.progressInterval := v },
      .of "event_filter" takeEvents fun v s => { s with found.events := v },
      .of "start_checkpoint" (optional word) fun v s =>
        { s with found.start := v.map UInt64.ofNat } ]
    ⟨.usual, false, false⟩
    fun s => if s.hasUrl && s.hasTracked then some s.found else none

/-- The section on the store. -/
def StorageSettings.take : Take StorageSettings :=
  .record
    [ .of "backend" (oneOf Backend.table) fun v (s : StorageSettings) => { s with backend := v },
      .of "url" (optional text) fun v s => { s with url := v },
      .of "max_connections" (.number UInt32.size) fun v s => { s with maxConnections := v } ]
    .usual some

/-- The section on subscribers. -/
def SubscriptionSettings.take : Take SubscriptionSettings :=
  .record
    [ .of "enabled" bool fun v (s : SubscriptionSettings) => { s with isEnabled := v },
      .of "bind" text fun v s => { s with bind := v },
      .of "max_clients" word fun v s => { s with maxClients := v },
      .of "channel_capacity" word fun v s => { s with capacity := v } ]
    .usual some

/-- The section on serving the status. -/
def HttpSettings.take : Take HttpSettings :=
  .record
    [ .of "enabled" bool fun v (s : HttpSettings) => { s with isEnabled := v },
      .of "bind" text fun v s => { s with bind := v } ]
    .usual some

/-- The section on logging.  Of two levels of a component the later counts. -/
def LogSettings.take : Take LogSettings :=
  .record
    [ .of "level" text fun v (s : LogSettings) => { s with level := v },
      .of "components" (.map text) fun v s => { s with components := v },
      .of "json" bool fun v s => { s with isJson := v } ]
    .usual some

/-- All sections.  The one on the ledger has to be there. -/
def Settings.take : Take Settings :=
  .record
    [ .of "ledger" LedgerSettings.take fun v (s : Settings × Bool) =>
        ({ s.1 with ledger := v }, true),
      .of "storage" StorageSettings.take fun v s => ({ s.1 with storage := v }, s.2),
      .of "subscriptions" SubscriptionSettings.take fun v s =>
        ({ s.1 with subscriptions := v }, s.2),
      .of "http" HttpSettings.take fun v s => ({ s.1 with http := v }, s.2),
      .of "logging" LogSettings.take fun v s => ({ s.1 with logging := v }, s.2) ]
    (.usual, false)
    fun s => if s.2 then some s.1 else none

namespace Settings

/-- The settings that a text holds. -/
def parse (text : String) : Option Settings := (Yaml.parse text).bind (Take.all take)

/-! ## Using settings -/

/-- A text begins with another. -/
def startsWith (text beginning : String) : Bool := beginning.toList.isPrefixOf text.toList

/-- The kind of store that a URL names. -/
def backendOf (url : String) : Backend := if startsWith url "postgres" then .postgres else .sqlite

/-- Puts URLs in the place of those in the settings.  The URL of a store also says its kind, if
none was chosen. -/
def override (s : Settings) (url database : Option String) : Settings :=
  let s := match url with
    | none => s
    | some url => { s with ledger.url := url }
  match database with
  | none => s
  | some url =>
    { s with
      storage.backend :=
        if s.storage.backend = .memory then backendOf url else s.storage.backend
      storage.url := some url }

/-- What is wrong with the settings, if anything is. -/
def flaw? (s : Settings) : Option String :=
  if s.ledger.url.isEmpty then some "ledger.rpc_url must not be empty"
  else if s.ledger.tracked.isEmpty then some "ledger.tracked_object must not be empty"
  else if s.ledger.pageSize = 0 then some "ledger.page_size must be greater than zero"
  else if s.storage.backend ≠ .memory ∧ s.storage.url.isNone then
    some ("storage.url is required for the " ++ s.storage.backend.title ++ " backend")
  else if s.subscriptions.capacity = 0 then
    some "subscriptions.channel_capacity must be greater than zero"
  else none

/-- The settings of an indexer. -/
def indexer (s : Settings) : List Sync.Setting :=
  let l := s.ledger
  [.id l.id, .tracked l.tracked, .pageSize l.pageSize, .progressInterval l.progressInterval,
    .events l.events, .url l.url] ++
    (l.pollInterval.map Sync.Setting.pollInterval).toList ++ (l.start.map Sync.Setting.start).toList

/-- The builder of an indexer. -/
def builder (s : Settings) : Sync.Builder := .ofSettings s.indexer

end Settings

/-! ## Log directives -/

namespace LogSettings

/-- The components, each once with its last level, in the order of their names. -/
def sorted (s : LogSettings) : List (String × String) :=
  s.components.foldl insert []
where
  /-- Puts a level in its place by the name of the component. -/
  insert (found : List (String × String)) (added : String × String) : List (String × String) :=
    match found with
    | [] => [added]
    | other :: rest =>
      if added.1 < other.1 then added :: other :: rest
      else if added.1 = other.1 then added :: rest
      else other :: insert rest added

/-- The name of a component in directives, where words are divided by low lines. -/
def componentName (name : String) : String :=
  String.ofList (name.toList.map fun c => if c = '-' then '_' else c)

/-- What to log, in one line: the level of all, then those of single components. -/
def directives (s : LogSettings) : String :=
  s.sorted.foldl (fun line (name, level) => line ++ "," ++ componentName name ++ "=" ++ level)
    s.level

end LogSettings

/-! ## Settings as JSON -/

/-- The section on the store, in JSON. -/
def StorageSettings.shape : Shape StorageSettings :=
  .record
    [ .of "backend" backend fun v (s : StorageSettings) => { s with backend := v },
      .of "url" (.optional .string) fun v s => { s with url := v },
      .of "max_connections" (.integer 0 (UInt32.size - 1)) fun v s =>
        { s with maxConnections := v.toNat } ]
    .usual .ok
where
  /-- A kind of store: its name, or an object whose only member has that name and holds nothing. -/
  backend : Shape Backend
    | _, .string (.ok name) | _, .object [(.ok name, .null)] .closed =>
      Shape.required ((Backend.table.find? (·.1 == name)).map (·.2))
    | _, r => .error r.misfit

/-- A filter on types in JSON. -/
def eventsJson (f : TypeFilter) : Json :=
  .ofMembers
    [ ("packages", .array (f.packages.map .string)),
      ("type_names", .array (f.names.map .string)) ]

/-- A natural number in JSON. -/
def natJson (n : Nat) : Json := .ofInt n

/-- All settings in JSON. -/
def Settings.toJson (s : Settings) : Json :=
  .ofMembers
    [ ("ledger", .ofMembers
        [ ("id", .string s.ledger.id), ("rpc_url", .string s.ledger.url),
          ("tracked_object", .string s.ledger.tracked), ("page_size", natJson s.ledger.pageSize),
          ("poll_interval_ms", .ofOption natJson s.ledger.pollInterval),
          ("progress_interval_secs", natJson s.ledger.progressInterval),
          ("event_filter", eventsJson s.ledger.events),
          ("start_checkpoint", .ofOption .ofUInt64 s.ledger.start) ]),
      ("storage", .ofMembers
        [ ("backend", .string s.storage.backend.name), ("url", .ofOption .string s.storage.url),
          ("max_connections", natJson s.storage.maxConnections) ]),
      ("subscriptions", .ofMembers
        [ ("enabled", .bool s.subscriptions.isEnabled), ("bind", .string s.subscriptions.bind),
          ("max_clients", natJson s.subscriptions.maxClients),
          ("channel_capacity", natJson s.subscriptions.capacity) ]),
      ("http", .ofMembers
        [("enabled", .bool s.http.isEnabled), ("bind", .string s.http.bind)]),
      ("logging", .ofMembers
        [ ("level", .string s.logging.level),
          ("components", .ofMembers (s.logging.components.map fun (n, l) => (n, .string l))),
          ("json", .bool s.logging.isJson) ]) ]

end LedgerIndex.App
