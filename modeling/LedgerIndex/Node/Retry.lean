/-!
# Retrying

A request that failed for a passing reason is sent again, a limited number of times, after
pauses that grow by a factor up to a limit.
-/

namespace LedgerIndex.Node

/-- How to retry.  Times are in microseconds. -/
structure RetryPolicy where
  /-- attempts after the first -/
  maxRetries : Nat
  initial : Nat
  longest : Nat
  factor : Float
  deriving Inhabited

namespace RetryPolicy

/-- Three retries, the first after 200 ms, each pause twice as long as the one before, ten seconds
at most. -/
def usual : RetryPolicy := ⟨3, 200000, 10000000, 2.0⟩

/-- `r * x ^ n` by repeated squaring. -/
def powerTimes (r x : Float) (n : Nat) : Float :=
  if h : n = 0 then r
  else
    let r := if n % 2 = 1 then r * x else r
    if n / 2 = 0 then r else powerTimes r (x * x) (n / 2)
termination_by n
decreasing_by omega

/-- `x ^ n`; a negative power is one over the positive one. -/
def power (x : Float) (n : Int) : Float :=
  let p := powerTimes 1.0 x n.natAbs
  if n < 0 then 1.0 / p else p

/-- The lesser of two doubles; one that is not a number does not count. -/
def lesser (x y : Float) : Float :=
  if x.isNaN then y else if y.isNaN then x else if y < x then y else x

/-- The pause before a retry, counted from one, in whole milliseconds; none when there have been
enough. -/
def pause? (p : RetryPolicy) (attempt : Nat) : Option UInt64 :=
  if attempt = 0 ∨ p.maxRetries < attempt then none
  else
    let initial := (p.initial / 1000).toUInt64.toFloat
    let longest := (p.longest / 1000).toUInt64.toFloat
    /- the power is a signed word of 32 bits -/
    let grown := initial * power p.factor (Int.bmod ((attempt : Int) - 1) UInt32.size)
    some (lesser grown longest).toUInt64

end RetryPolicy

end LedgerIndex.Node
