import LedgerIndex.Store.Basic
import LedgerIndex.Subscription.Registry
import LedgerIndex.Sync.Config
import LedgerIndex.Sync.Status

/-!
# One round of synchronisation

A machine asks the ledger for the page after its cursor, stores the page as one batch, and tells
the subscribers.  All it does that can be seen from outside is written to a log, in order.  The
cursor moves only when the store has taken the page in, so a round that fails is simply repeated.
-/

namespace LedgerIndex

/-- A ledger that can be asked. -/
class Ledger (ν : Type) where
  /-- the transactions after a digest, at most so many, in ascending order -/
  fetchPage : ObjectFilter → Option String → Nat → ν → Except Error (List Transaction) × ν
  headCheckpoint : ν → Except Error UInt64 × ν

/-- Clocks. -/
class Clock (ν : Type) where
  /-- nanoseconds since some point -/
  now : ν → Nat × ν
  /-- the time to write on records, in milliseconds -/
  stamp : ν → Int × ν

namespace Sync

/-- What an indexer reports as it happens. -/
inductive Notice where
  | committed (summary : CommitSummary)
  | fetchFailed (error : String) (inRow : Nat)
  /-- a page began behind the cursor -/
  | regression (cursor page : UInt64)
  | progress (p : Progress)
  | fannedOut (d : Delivery)
  deriving Inhabited

/-- What can be seen of a machine from outside. -/
inductive Activity where
  /-- the status was published -/
  | published (status : Status)
  /-- the store was asked for the cursor -/
  | loadedCursor
  /-- the ledger was asked for a page -/
  | fetched (filter : ObjectFilter) (after : Option String) (limit : Nat)
  /-- the store was given a batch -/
  | committed (batch : Batch)
  /-- the ledger was asked for its head -/
  | askedHead
  | noticed (notice : Notice)
  /-- messages were handed to the registry -/
  | handedOut (messages : List Push)
  deriving Inhabited

/-- How a round ended, unless the store failed. -/
inductive Outcome where
  /-- a page was stored; `regression` if it began behind the cursor -/
  | committed (summary : CommitSummary) (regression : Bool)
  /-- the ledger has nothing after the cursor -/
  | empty
  /-- no page could be fetched -/
  | fetchFailed
  deriving DecidableEq, Repr, Inhabited

/-- An indexer by itself. -/
structure Loop where
  config : Config
  estimator : Estimator
  cursor : Option Cursor
  /-- the store was asked for the cursor -/
  isLoaded : Bool
  status : Status
  deriving Inhabited

namespace Loop

/-- An indexer that has done nothing yet. -/
def new (config : Config) : Loop :=
  ⟨config, .new (config.progressInterval * Nat.pow 10 9), none, false, .new⟩

/-- The checkpoint of the cursor, zero without one. -/
def checkpoint (l : Loop) : UInt64 :=
  match l.cursor with
  | none => 0
  | some c => c.checkpoint

/-- The digest after which the next page begins. -/
def after (l : Loop) : Option String := l.cursor.map (·.digest)

/-- Which transactions the indexer asks for. -/
def filter (l : Loop) : ObjectFilter := ⟨l.config.tracked⟩

/-- The cursor and the checkpoint where a page begins, if it begins behind the cursor. -/
def regression? (l : Loop) (page : List Transaction) : Option (UInt64 × UInt64) :=
  match l.cursor, page with
  | some c, t :: _ => if c.isBehind t.checkpoint then some (c.checkpoint, t.checkpoint) else none
  | _, _ => none

/-- The transactions of a page that are taken in. -/
def kept (l : Loop) (page : List Transaction) : List Transaction :=
  page.filter fun t => l.config.takes t.checkpoint

/-- The batch to store for a page.  Its cursor is past the whole page, also past those transactions
that are left out. -/
def batchOf (l : Loop) (stamp : Int) (page : List Transaction) : Batch :=
  { Batch.ofPage l.config.events stamp (l.kept page) with
    cursor := page.getLast?.map fun t => ⟨t.digest, t.checkpoint⟩ }

/-- Counts a stored page, and moves to its end. -/
def account (l : Loop) (page : List Transaction) (b : Batch) : Loop :=
  let cursor := b.cursor.or l.cursor
  { l with
    cursor := cursor
    status :=
      { l.status with
        pages := l.status.pages + 1
        transactions := l.status.transactions + (l.kept page).length
        events := l.status.events + b.events.length
        changes := l.status.changes + b.changes.length
        skipped := l.status.skipped + b.skipped
        cursor := cursor } }

/-- Counts a failure to fetch. -/
def failed (l : Loop) : Loop :=
  { l with
    status :=
      { l.status with
        failuresInRow := l.status.failuresInRow + 1
        failures := l.status.failures + 1 } }

/-- The head of the ledger has been reached, as far as the last stored page and the last progress
sample tell. -/
def hasReachedHead (l : Loop) (page : List Transaction) : Bool :=
  page.length < l.config.pageSize ||
    (match l.status.progress with
      | none => false
      | some p => p.isCaughtUp)

end Loop

/-- An indexer with the world around it, and the log of what it did. -/
structure Machine (ν σ : Type) where
  loop : Loop
  outside : ν
  store : σ
  registry : Option Registry
  log : List Activity

namespace Machine

variable {ν σ : Type}

/-- A new indexer in a world. -/
def new (config : Config) (outside : ν) (store : σ) (registry : Option Registry) : Machine ν σ :=
  ⟨.new config, outside, store, registry, []⟩

/-! ## Telling -/

/-- Adds to the log. -/
def record (m : Machine ν σ) (a : Activity) : Machine ν σ := { m with log := m.log ++ [a] }

/-- Publishes the status. -/
def publish (m : Machine ν σ) : Machine ν σ := m.record (.published m.loop.status)

/-- Turns to doing something else, and publishes that. -/
def enter (m : Machine ν σ) (state : State) : Machine ν σ :=
  publish { m with loop.status.state := state }

/-- Reports something. -/
def note (m : Machine ν σ) (n : Notice) : Machine ν σ := m.record (.noticed n)

/-! ## The cursor -/

/-- Asks the store for the cursor. -/
def loadCursor [CommitStore σ] (m : Machine ν σ) : Except Error Unit × Machine ν σ :=
  let (found, store) := CommitStore.loadCursor m.loop.config.id m.store
  let m := { m.record .loadedCursor with store := store }
  match found with
  | .error e => (.error e, m)
  | .ok stored =>
    let cursor := (stored.map (·.cursor)).or m.loop.cursor
    (.ok (),
      publish { m with loop.cursor := cursor, loop.isLoaded := true, loop.status.cursor := cursor })

/-- Asks the store for the cursor, the first time. -/
def ready [CommitStore σ] (m : Machine ν σ) : Except Error Unit × Machine ν σ :=
  if m.loop.isLoaded then (.ok (), m) else m.loadCursor

/-! ## The ledger -/

/-- Asks for the page after the cursor. -/
def fetch [Ledger ν] (m : Machine ν σ) : Except Error (List Transaction) × Machine ν σ :=
  let filter := m.loop.filter
  let after := m.loop.after
  let limit := m.loop.config.pageSize
  let (page, outside) := Ledger.fetchPage filter after limit m.outside
  (page, { m.record (.fetched filter after limit) with outside := outside })

/-- Takes a sample of the progress, with the ledger's answer about its head. -/
def takeSample (m : Machine ν σ) (now : Nat) (head : UInt64) : Machine ν σ :=
  let (report, estimator) := m.loop.estimator.sample m.loop.checkpoint head now
  let m := { m with loop.estimator := estimator }
  match report with
  | none => m
  | some p => note { m with loop.status.progress := some p } (.progress p)

/-- Takes a sample of the progress if it is time to.  A ledger that does not tell its head is asked
again next time. -/
def sampleProgress [Ledger ν] [Clock ν] (m : Machine ν σ) : Machine ν σ :=
  let (now, outside) := Clock.now m.outside
  let m := { m with outside := outside }
  if m.loop.estimator.isDue now then
    let (head, outside) := Ledger.headCheckpoint m.outside
    let m := { m.record .askedHead with outside := outside }
    match head with
    | .error _ => m
    | .ok head => m.takeSample now head
  else m

/-! ## The store and the subscribers -/

/-- Gives a batch to the store. -/
def commit [CommitStore σ] (m : Machine ν σ) (stamp : Int) (b : Batch) :
    Except Error CommitSummary × Machine ν σ :=
  let (summary, store) := CommitStore.commit stamp m.loop.config.id b m.store
  (summary, { m.record (.committed b) with store := store })

/-- Hands the messages of a batch to the registry, if there is one. -/
def fanOut (m : Machine ν σ) (b : Batch) : Machine ν σ :=
  match m.registry with
  | none => m
  | some registry =>
    let (delivery, registry) := registry.fanOut b
    note { m.record (.handedOut b.messages) with registry := some registry } (.fannedOut delivery)

/-! ## The round -/

/-- A page could not be fetched. -/
def giveUp (m : Machine ν σ) (e : Error) : Machine ν σ :=
  let m := { m with loop := m.loop.failed }
  (m.note (.fetchFailed e.message m.loop.status.failuresInRow)).enter .idle

/-- There is nothing new. -/
def rest [Ledger ν] [Clock ν] (m : Machine ν σ) : Machine ν σ :=
  (sampleProgress { m with loop.status.isCaughtUp := true }).enter .idle

/-- Reports a page that begins behind the cursor. -/
def noteRegression (m : Machine ν σ) (page : List Transaction) : Machine ν σ :=
  match m.loop.regression? page with
  | none => m
  | some (cursor, first) => m.note (.regression cursor first)

/-- A page was stored: moves the cursor, samples the progress and tells the subscribers. -/
def settle [Ledger ν] [Clock ν] (m : Machine ν σ) (page : List Transaction) (b : Batch)
    (summary : CommitSummary) : Machine ν σ :=
  let m := (note { m with loop := m.loop.account page b } (.committed summary)).sampleProgress
  let m := { m with loop.status.isCaughtUp := m.loop.hasReachedHead page }
  ((m.enter .notifying).fanOut b).enter .idle

/-- Stores a page that is not empty. -/
def takeIn [Ledger ν] [Clock ν] [CommitStore σ] (m : Machine ν σ) (page : List Transaction) :
    Except Error Outcome × Machine ν σ :=
  let regression := (m.loop.regression? page).isSome
  let m := (m.noteRegression page).enter .reconciling
  let (stamp, outside) := Clock.stamp m.outside
  let m := { m with outside := outside }
  let b := m.loop.batchOf stamp page
  match m.commit stamp b with
  | (.error e, m) => (.error e, m.enter .idle)
  | (.ok summary, m) => (.ok (.committed summary regression), m.settle page b summary)

/-- One round.  Only a store can make it fail. -/
def step [Ledger ν] [Clock ν] [CommitStore σ] (m : Machine ν σ) :
    Except Error Outcome × Machine ν σ :=
  match m.ready with
  | (.error e, m) => (.error e, m)
  | (.ok (), m) =>
    match (m.enter .fetching).fetch with
    | (.error e, m) => (.ok .fetchFailed, m.giveUp e)
    | (.ok page, m) =>
      let m := { m with loop.status.failuresInRow := 0 }
      if page.isEmpty then (.ok .empty, m.rest) else m.takeIn page

end Machine

end Sync

end LedgerIndex
