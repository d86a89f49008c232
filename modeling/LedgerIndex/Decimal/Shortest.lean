/-!
# Shortest decimals of doubles

A finite double is `m * 2 ^ q`.  All reals closer to it than to its neighbours read back as it,
and so do the two halfway points when `m` is even.  Among the decimals in that interval the
shortest one is wanted, and of the shortest the one nearest to the double; halfway between two
of them the even one counts.  On the grid of decimals with a given number of digits it is enough
to test the two neighbours of the double.
-/

namespace LedgerIndex.Decimal

/-- A positive double as `mantissa * 2 ^ exponent`.  `atPower` marks the least mantissa of its
exponent, whose lower neighbour is nearer than its upper one. -/
structure Binary where
  mantissa : Nat
  exponent : Int
  atPower : Bool
  deriving DecidableEq, Repr

/-- The value that the bits of a finite double stand for, without its sign. -/
def Binary.ofBits (bits : UInt64) : Binary :=
  let fraction : Nat := bits.toNat % Nat.pow 2 52
  let biased : Nat := bits.toNat / Nat.pow 2 52 % Nat.pow 2 11
  if biased = 0 then ⟨fraction, -1074, false⟩
  else ⟨Nat.pow 2 52 + fraction, (biased : Int) - 1075, fraction == 0 && 1 < biased⟩

/-- A positive rational. -/
structure Ratio where
  num : Nat
  den : Nat

/-- `x * 2 ^ e`. -/
def Ratio.shift (x : Nat) (e : Int) : Ratio :=
  if 0 ≤ e then ⟨x * Nat.pow 2 e.natAbs, 1⟩ else ⟨x, Nat.pow 2 e.natAbs⟩

/-- `x / 10 ^ e`. -/
def Ratio.onGrid (x : Ratio) (e : Int) : Ratio :=
  if 0 ≤ e then ⟨x.num, x.den * Nat.pow 10 e.natAbs⟩
  else ⟨x.num * Nat.pow 10 e.natAbs, x.den⟩

/-- The interval of the reals that read back as a double, on a grid of decimals: its ends, whether
they belong to it, and the double itself. -/
structure Interval where
  low : Ratio
  value : Ratio
  high : Ratio
  closed : Bool

/-- The reals that read back as `x`, in units of `10 ^ e`. -/
def Binary.interval (x : Binary) (e : Int) : Interval :=
  let down := if x.atPower then 4 * x.mantissa - 1 else 4 * x.mantissa - 2
  { low := (Ratio.shift down (x.exponent - 2)).onGrid e
    value := (Ratio.shift (4 * x.mantissa) (x.exponent - 2)).onGrid e
    high := (Ratio.shift (4 * x.mantissa + 2) (x.exponent - 2)).onGrid e
    closed := x.mantissa % 2 == 0 }

/-- The whole number `k` lies in the interval. -/
def Interval.holds (i : Interval) (k : Nat) : Bool :=
  if i.closed then i.low.num ≤ k * i.low.den && k * i.high.den ≤ i.high.num
  else i.low.num < k * i.low.den && k * i.high.den < i.high.num

/-- The whole number of the interval nearest to its value, if there is one: of two equally near
the even one. -/
def Interval.nearest? (i : Interval) : Option Nat :=
  let below := i.value.num / i.value.den
  let left := 2 * (i.value.num % i.value.den)
  match i.holds below, i.holds (below + 1) with
  | true, false => some below
  | false, true => some (below + 1)
  | true, true =>
    some (if left < i.value.den || (left == i.value.den && below % 2 == 0) then below
      else below + 1)
  | false, false => none

/-- The number of digits before the point of a positive rational, zero or less below one: the
least `e` with `x < 10 ^ e`, looked for upwards from `e`. -/
def Ratio.magnitude (x : Ratio) : Nat → Int → Int
  | 0, e => e
  | fuel + 1, e =>
    let y := x.onGrid e
    if y.num < y.den then e else x.magnitude fuel (e + 1)

/-- A decimal `digits * 10 ^ exponent`. -/
structure Numeral where
  digits : Nat
  exponent : Int
  deriving DecidableEq, Repr

/-- Looks for the first grid with a decimal that reads back, from `10 ^ e` to finer grids. -/
def Binary.search (x : Binary) : Nat → Int → Numeral
  | 0, e => ⟨0, e⟩
  | fuel + 1, e =>
    match (x.interval e).nearest? with
    | some k => if k = 0 then x.search fuel (e - 1) else ⟨k, e⟩
    | none => x.search fuel (e - 1)

/-- Moves trailing zeros of the digits into the exponent. -/
def Numeral.trim : Nat → Numeral → Numeral
  | 0, d => d
  | fuel + 1, d =>
    if d.digits % 10 = 0 ∧ d.digits ≠ 0 then trim fuel ⟨d.digits / 10, d.exponent + 1⟩ else d

/-- The shortest decimal that reads back as the positive double `x`.  A double has at most 309
digits before the point and at most 17 that count. -/
def Binary.shortest (x : Binary) : Numeral :=
  let value := Ratio.shift x.mantissa x.exponent
  (x.search 20 (value.magnitude 640 (-324))).trim 20

/-- The whole number nearest to a rational, of two equally near the greater one. -/
def Ratio.round (x : Ratio) : Nat := (2 * x.num + x.den) / (2 * x.den)

/-- The decimal with at most `places` digits nearest to the positive double `x`. -/
def Binary.rounded (places : Nat) (x : Binary) : Numeral :=
  let value := Ratio.shift x.mantissa x.exponent
  let e := value.magnitude 640 (-324) - places
  Numeral.trim (places + 1) ⟨(value.onGrid e).round, e⟩

end LedgerIndex.Decimal
