import LedgerIndex.Error
import LedgerIndex.Ledger.EventType

/-!
# Configuring an indexer

What an indexer has to know, and a builder that takes the settings one by one.  The pause between
pages depends on where the node is, unless it is set.
-/

namespace LedgerIndex.Sync

/-- The configuration of an indexer. -/
structure Config where
  /-- the name under which the cursor is stored -/
  id : String
  /-- the object whose transactions are taken in -/
  tracked : String
  /-- the most transactions in a page -/
  pageSize : Nat
  /-- the pause between pages, in milliseconds -/
  pollInterval : Nat
  /-- the interval between progress samples, in seconds -/
  progressInterval : Nat
  /-- events of other types are left out -/
  events : TypeFilter
  /-- transactions below this checkpoint are left out -/
  start : Option UInt64
  deriving Inhabited

/-- The pause between pages of a remote node. -/
def remotePollInterval : Nat := 1000

/-- The pause between pages of a node on this machine. -/
def localPollInterval : Nat := 100

/-- One text occurs in another. -/
def occursIn (part : List Char) : List Char → Bool
  | [] => part.isEmpty
  | c :: rest => part.isPrefixOf (c :: rest) || occursIn part rest

/-- The pause between pages of the node at a URL. -/
def pollIntervalOf (url : String) : Nat :=
  if occursIn "localhost".toList url.toList || occursIn "127.0.0.1".toList url.toList then
    localPollInterval
  else remotePollInterval

namespace Config

/-- The configuration before anything is set. -/
def usual : Config := ⟨"default", "", 50, remotePollInterval, 10, .all, none⟩

/-- A transaction of the given checkpoint is taken in. -/
def takes (c : Config) (checkpoint : UInt64) : Bool :=
  match c.start with
  | none => true
  | some start => start ≤ checkpoint

end Config

/-! ## The builder -/

/-- One setting. -/
inductive Setting where
  | id (s : String)
  | tracked (object : String)
  | pageSize (n : Nat)
  | pollInterval (milliseconds : Nat)
  | progressInterval (seconds : Nat)
  | events (filter : TypeFilter)
  | start (checkpoint : UInt64)
  | url (s : String)
  deriving Inhabited

/-- A configuration in the making. -/
structure Builder where
  config : Config
  /-- where the node is -/
  url : Option String
  /-- the pause between pages was set, and no longer depends on the node -/
  isPaced : Bool
  deriving Inhabited

namespace Builder

/-- Nothing is set. -/
def new : Builder := ⟨.usual, none, false⟩

/-- Takes a setting.  The last of a kind counts. -/
def set (b : Builder) : Setting → Builder
  | .id s => { b with config.id := s }
  | .tracked object => { b with config.tracked := object }
  | .pageSize n => { b with config.pageSize := n }
  | .pollInterval ms => { b with config.pollInterval := ms, isPaced := true }
  | .progressInterval secs => { b with config.progressInterval := secs }
  | .events filter => { b with config.events := filter }
  | .start checkpoint => { b with config.start := some checkpoint }
  | .url s =>
    { b with
      url := some s
      config.pollInterval := if b.isPaced then b.config.pollInterval else pollIntervalOf s }

/-- Takes settings in order. -/
def ofSettings (settings : List Setting) : Builder := settings.foldl set new

/-- The configuration of an indexer that can run. -/
def build (b : Builder) : Except Error Config :=
  if b.config.tracked.isEmpty then .error (.config "tracked_object is required")
  else if b.config.pageSize = 0 then .error (.config "page_size must be at least 1")
  else .ok b.config

/-- The configuration of an indexer that can run, and the URL of its node. -/
def buildAt (b : Builder) : Except Error (String × Config) :=
  match b.url with
  | none => .error (.config "rpc_url is required")
  | some url => b.build.map fun config => (url, config)

end Builder

end LedgerIndex.Sync
