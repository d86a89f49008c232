/-!
# Progress

How far the indexed part of a ledger is behind its head.  Samples of both checkpoints are taken at
intervals; the first is the base line, and each later one tells how fast the gap is closing.
-/

namespace LedgerIndex

/-- What a sample tells. -/
structure Progress where
  /-- the checkpoint of the last transaction taken in -/
  current : UInt64
  /-- the latest checkpoint of the ledger -/
  head : UInt64
  /-- how much of the ledger has been taken in, at most 100 -/
  percent : Float
  /-- checkpoints taken in per second since the sample before -/
  rate : Float
  /-- seconds until the head is reached at that rate -/
  eta : Option Float
  deriving Inhabited

namespace Progress

/-- Checkpoints still to come. -/
def lag (p : Progress) : UInt64 := if p.head ≤ p.current then 0 else p.head - p.current

/-- At most a thousandth of the ledger is still to come. -/
def isCaughtUp (p : Progress) : Bool := p.percent ≥ 99.9

/-- A number of nanoseconds, in seconds. -/
def seconds (time : Nat) : Float :=
  (time / Nat.pow 10 9).toUInt64.toFloat + (time % Nat.pow 10 9).toUInt64.toFloat / 1e9

/-- How much of a ledger with the given head has been taken in. -/
def percentOf (current head : UInt64) : Float :=
  if head = 0 then 100.0
  else
    let p := current.toFloat / head.toFloat * 100.0
    if p > 100.0 then 100.0 else p

/-- What a sample tells, given the checkpoint of the sample before and the time since then. -/
def since (before : UInt64) (elapsed : Nat) (current head : UInt64) : Progress :=
  let time := seconds elapsed
  let risen : UInt64 := if current ≤ before then 0 else current - before
  let rate := if time > 0.0 then risen.toFloat / time else 0.0
  let remaining : UInt64 := if head ≤ current then 0 else head - current
  { current := current
    head := head
    percent := percentOf current head
    rate := rate
    eta := if rate > 0.0 then some (remaining.toFloat / rate) else none }

end Progress

/-- A sample: when it was taken, in nanoseconds, and the checkpoint then reached. -/
structure Sample where
  time : Nat
  checkpoint : UInt64
  deriving DecidableEq, Repr, Inhabited

/-- Takes samples, at intervals of at least so many nanoseconds. -/
structure Estimator where
  interval : Nat
  previous : Option Sample
  /-- what the last sample told, the base line apart -/
  last : Option Progress
  deriving Inhabited

namespace Estimator

/-- An estimator without samples. -/
def new (interval : Nat) : Estimator := ⟨interval, none, none⟩

/-- It is time for a sample.  A clock that went back counts as one that stood still. -/
def isDue (e : Estimator) (now : Nat) : Bool :=
  match e.previous with
  | none => true
  | some s => e.interval ≤ now - s.time

/-- Takes a sample, and tells of it unless it is the first. -/
def sample (e : Estimator) (checkpoint head : UInt64) (now : Nat) : Option Progress × Estimator :=
  let taken : Sample := ⟨now, checkpoint⟩
  match e.previous with
  | none => (none, { e with previous := some taken })
  | some s =>
    let report := Progress.since s.checkpoint (now - s.time) checkpoint head
    (some report, { e with previous := some taken, last := some report })

end Estimator

end LedgerIndex
