import LedgerIndex.Cursor
import LedgerIndex.Progress

/-!
# Status of an indexer

What an indexer tells of itself while it runs.
-/

namespace LedgerIndex.Sync

/-- What an indexer is doing. -/
inductive State where
  /-- between two pages -/
  | idle
  /-- waiting for a page -/
  | fetching
  /-- storing a page -/
  | reconciling
  /-- telling the subscribers -/
  | notifying
  /-- was asked to stop -/
  | stopping
  | stopped
  deriving DecidableEq, Repr, Inhabited

/-- The name of a state. -/
def State.name : State → String
  | idle => "idle"
  | fetching => "fetching"
  | reconciling => "reconciling"
  | notifying => "notifying"
  | stopping => "stopping"
  | stopped => "stopped"

/-- The status of an indexer.  The numbers count from its start. -/
structure Status where
  state : State
  cursor : Option Cursor
  /-- what the last progress sample told -/
  progress : Option Progress
  /-- pages that were stored -/
  pages : Nat
  transactions : Nat
  events : Nat
  changes : Nat
  /-- events that were not well formed -/
  skipped : Nat
  /-- failures since a page was last fetched -/
  failuresInRow : Nat
  failures : Nat
  /-- the head of the ledger was reached -/
  isCaughtUp : Bool
  deriving Inhabited

namespace Status

/-- The status before anything has happened. -/
def new : Status := ⟨.idle, none, none, 0, 0, 0, 0, 0, 0, 0, false⟩

/-- The checkpoint of the last transaction stored. -/
def checkpoint? (s : Status) : Option UInt64 := s.cursor.map (·.checkpoint)

end Status

end LedgerIndex.Sync
