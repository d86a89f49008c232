import LedgerIndex.App.Endpoints
import LedgerIndex.App.Store
import LedgerIndex.App.Texts
import LedgerIndex.Node.Client
import LedgerIndex.Sync.Run

/-!
# The program

What each command does on a machine: it prints something, changes files and databases, and ends
with a code.  Running the indexer comes in three parts, so that its rounds can be watched: the
start, the rounds, and the end.
-/

namespace LedgerIndex.App

/-- How the program ended: with a code, after printing, and with a line about what went wrong. -/
structure Exit where
  code : Nat
  output : String
  error : Option String
  deriving DecidableEq, Repr, Inhabited

namespace Exit

/-- All went well. -/
def success (output : String) : Exit := ⟨0, output, none⟩

/-- Something failed. -/
def failure (text : String) : Exit := ⟨1, "", some ("Error: " ++ text)⟩

/-- The command line makes no sense. -/
def misuse : Exit := ⟨2, "", none⟩

end Exit

/-! ## Around an indexer -/

/-- What an indexer meets: the node it asks, and the clocks. -/
structure Outside (η : Type) where
  client : Node.Client η
  /-- nanoseconds since some point -/
  time : Nat
  /-- the time to write on records, in milliseconds -/
  stamp : Int

namespace Outside

variable {η : Type}

/-- Asks the client for something. -/
def ask (f : Node.Client η → α × Node.Client η) (o : Outside η) : α × Outside η :=
  let (answer, client) := f o.client
  (answer, { o with client })

/-- A moment passes at each look at the clock. -/
def now (o : Outside η) : Nat × Outside η := (o.time, { o with time := o.time + Nat.pow 10 6 })

instance [Node.HttpServer η] [Node.Wording] : Ledger (Outside η) where
  fetchPage filter after limit := ask fun c => c.fetchPage filter after limit
  headCheckpoint := ask fun c => c.headCheckpoint

instance : Clock (Outside η) := ⟨now, fun o => (o.stamp, o)⟩

instance [Sync.StopSignal η] : Sync.StopSignal (Outside η) where
  isRaised o := Sync.StopSignal.isRaised o.client.server
  pause milliseconds o :=
    let (wake, server) := Sync.StopSignal.pause milliseconds o.client.server
    (wake, { o with client := { o.client with server } })

end Outside

/-! ## Addresses to listen at -/

/-- The digits stand for a word of 16 bits. -/
def isPort (cs : List Char) : Bool := (Decimal.wordOfChars? cs).any (·.toNat < UInt16.size)

/-- The texts of the addresses of this machine. -/
def localHosts : List String := ["0.0.0.0", "127.0.0.1", "localhost", "[::]", "[::1]"]

/-- What is wrong with an address to listen at. -/
def bindFault? (address : String) : Option String :=
  let cs := address.toList.reverse
  let port := (cs.takeWhile (· != ':')).reverse
  let host := String.ofList ((cs.dropWhile (· != ':')).drop 1).reverse
  if !cs.contains ':' then some "invalid socket address"
  else if !isPort port then some "invalid port value"
  else if localHosts.contains host then none
  else some "Cannot assign requested address (os error 99)"

/-! ## Settings of a run -/

/-- The file of the settings, unless another is named. -/
def usualConfig : String := "schemaindex.yaml"

namespace Host

variable {η π : Type}

/-- The settings that options and environment lead to. -/
def settings (h : Host η π) (o : Options) : Except String Settings :=
  let path := o.config.getD usualConfig
  match h.file? path with
  | some (.text text) =>
    match Settings.parse text with
    | none => .error ("parsing config file " ++ path)
    | some s =>
      let s := s.override (o.url.or (h.environmentValue? "SCHEMAINDEX_RPC_URL"))
        (o.database.or (h.environmentValue? "DATABASE_URL"))
      match s.flaw? with
      | some flaw => .error flaw
      | none => .ok s
  | _ => .error ("reading config file " ++ path)

variable [SqlServer π]

/-! ## Commands that end by themselves -/

/-- Opens the store, does something with it, and closes it. -/
def withStore (h : Host η π) (s : Settings) (act : Store π → Except Error Exit × Store π) :
    Exit × Host η π :=
  match h.openStore s.storage with
  | (.error text, h) => (.failure text, h)
  | (.ok store, h) =>
    let (answer, store) := act store
    let h := h.closeStore store
    match answer with
    | .ok exit => (exit, h)
    | .error e => (.failure e.message, h)

/-- What a store holds for an indexer. -/
def report (s : Settings) (store : Store π) : Except Error StoreReport × Store π :=
  match CommitStore.loadCursor s.ledger.id store with
  | (.error e, store) => (.error e, store)
  | (.ok cursor, store) =>
    match TableStore.counts store with
    | (.error e, store) => (.error e, store)
    | (.ok counts, store) => (.ok ⟨s.ledger.id, s.ledger.tracked, cursor, counts⟩, store)

/-- Shows what the store holds. -/
def showStatus (h : Host η π) (s : Settings) (isJson : Bool) : Exit × Host η π :=
  h.withStore s fun store =>
    let (answer, store) := report s store
    (answer.map fun r => .success (if isJson then r.toJson.pretty ++ "\n" else r.text), store)

/-- Deletes everything in the store. -/
def reset (h : Host η π) (s : Settings) (isConfirmed : Bool) : Exit × Host η π :=
  if isConfirmed then
    h.withStore s fun store =>
      let (answer, store) := TableStore.clear store
      (answer.map fun () =>
        .success (lines ["Cleared all indexed data for '" ++ s.ledger.id ++ "'"]), store)
  else (.failure "reset deletes all indexed data; pass --force to confirm", h)

/-! ## Running the indexer -/

/-- An indexer that runs on this machine. -/
abbrev Indexer (η π : Type) := Sync.Machine (Outside η) (Store π)

/-- Deletes everything in the store if that is wanted. -/
def clearIf (isForced : Bool) (store : Store π) : Except Error Unit × Store π :=
  if isForced then TableStore.clear store else (.ok (), store)

/-- Opens the store and gets the indexer ready to run. -/
def start (h : Host η π) (s : Settings) (isForced : Bool) (stamp : Int) :
    Except String (Indexer η π) × Host η π :=
  match h.openStore s.storage with
  | (.error text, h) => (.error text, h)
  | (.ok store, h) =>
    match clearIf isForced store with
    | (.error _, store) => (.error "clearing indexed data", h.closeStore store)
    | (.ok (), store) =>
      match s.builder.buildAt with
      | .error e => (.error e.message, h.closeStore store)
      | .ok (url, config) =>
        let sub := s.subscriptions
        match if sub.isEnabled then bindFault? sub.bind else none with
        | some fault =>
          (.error (Error.subscription ("failed to bind " ++ sub.bind ++ ": " ++ fault)).message,
            h.closeStore store)
        | none =>
          let client : Node.Client η := ⟨.new url .usual, h.node url⟩
          (.ok (.new config ⟨client, 0, stamp⟩ store
            (if sub.isEnabled then some (.new sub.maxClients sub.capacity) else none)), h)

/-- How the program ends when the indexer has. -/
def stop (h : Host η π) (m : Indexer η π) (ending : Except Error Unit) : Exit × Host η π :=
  ((match ending with
    | .ok () => .success ""
    | .error _ => .failure "sync loop stopped"),
    h.closeStore m.store)

/-- Runs the indexer for a number of turns, or until it ends.  Answers how the program ended, and
the indexer if it was started. -/
def runIndexer [Node.HttpServer η] [Node.Wording] [Sync.StopSignal η] (h : Host η π)
    (s : Settings) (isForced : Bool) (stamp : Int) (turns : Nat) :
    Exit × Option (Indexer η π) × Host η π :=
  match h.start s isForced stamp with
  | (.error text, h) => (.failure text, none, h)
  | (.ok m, h) =>
    let (ending, m) := m.run turns
    let (exit, h) := h.stop m (ending.getD (.ok ()))
    (exit, some m, h)

/-! ## Command lines -/

/-- Does what a command asks for. -/
def execute [Node.HttpServer η] [Node.Wording] [Sync.StopSignal η] (h : Host η π) (a : Arguments)
    (stamp : Int) (turns : Nat) : Exit × Option (Indexer η π) × Host η π :=
  let withSettings (act : Settings → Exit × Host η π) : Exit × Option (Indexer η π) × Host η π :=
    match h.settings a.options with
    | .error text => (.failure text, none, h)
    | .ok s => let (exit, h) := act s; (exit, none, h)
  match a.command with
  | .info => (.success infoText, none, h)
  | .version => (.success versionText, none, h)
  | .status isJson => withSettings fun s => h.showStatus s isJson
  | .reset isConfirmed => withSettings fun s => h.reset s isConfirmed
  | .run isForced =>
    match h.settings a.options with
    | .error text => (.failure text, none, h)
    | .ok s => h.runIndexer s isForced stamp turns

/-- Does what a command line asks for. -/
def runCommandLine [Node.HttpServer η] [Node.Wording] [Sync.StopSignal η] (h : Host η π)
    (words : List String) (stamp : Int) (turns : Nat) : Exit × Option (Indexer η π) × Host η π :=
  match Parsed.ofWords words with
  | .command a => h.execute a stamp turns
  | .version => (.success versionText, none, h)
  | .help none => (.success (usageText h.environmentValue?), none, h)
  | .help (some name) => (.success (commandUsageText h.environmentValue? name), none, h)
  | .refused => (.misuse, none, h)

end Host

end LedgerIndex.App
