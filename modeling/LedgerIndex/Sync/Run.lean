import LedgerIndex.Sync.Machine

/-!
# Running until asked to stop

Between two rounds there is a pause.  A call to stop is heeded only there, so that a round is
never cut short.
-/

namespace LedgerIndex.Sync

/-- Why a pause ended. -/
inductive Wake where
  /-- it was over -/
  | elapsed
  /-- the call to stop was raised or lowered -/
  | signalled
  /-- no one is left who could call -/
  | abandoned
  deriving DecidableEq, Repr, Inhabited

/-- The call to stop. -/
class StopSignal (ν : Type) where
  isRaised : ν → Bool
  /-- pauses for a number of milliseconds -/
  pause : Nat → ν → Wake × ν

namespace Machine

variable {ν σ : Type} [StopSignal ν]

/-- Stops for good. -/
def finish (m : Machine ν σ) : Machine ν σ := (m.enter .stopping).enter .stopped

/-- The call to stop is raised. -/
def isCalledToStop (m : Machine ν σ) : Bool := StopSignal.isRaised m.outside

/-- A pause, and a round after it unless there is a call to stop.  Answers how the run ends, if
it does. -/
def turn [Ledger ν] [Clock ν] [CommitStore σ] (m : Machine ν σ) :
    Option (Except Error Unit) × Machine ν σ :=
  if m.isCalledToStop then (some (.ok ()), m)
  else
    let (wake, outside) := StopSignal.pause m.loop.config.pollInterval m.outside
    let m := { m with outside := outside }
    match wake with
    | .abandoned => (some (.ok ()), m)
    | .signalled => (if m.isCalledToStop then some (.ok ()) else none, m)
    | .elapsed =>
      match m.step with
      | (.error e, m) => (some (.error e), m)
      | (.ok _, m) => (none, m)

/-- Runs for at most so many turns.  Answers how the run ended, if it did. -/
def run [Ledger ν] [Clock ν] [CommitStore σ] :
    Nat → Machine ν σ → Option (Except Error Unit) × Machine ν σ
  | 0, m => (none, m)
  | turns + 1, m =>
    match m.turn with
    | (some ending, m) => (some ending, m.finish)
    | (none, m) => run turns m

end Machine

end LedgerIndex.Sync
