import QuerySteps.Decimal.Basic

/-!
# The shortest decimal of a double

A positive double stands for all reals that are nearer to it than to any other double; the ends of
that interval belong to it when its significand is even.  Its shortest decimal is found on the
coarsest grid of powers of ten that has a point in the interval: `Interval.hit?` tests the two grid
points beside the double itself, and `shortest` walks from coarse grids to fine ones.  Of two points
in the interval the nearer is taken, and on a tie the even one.

All comparisons are between natural numbers: the ratio of the grid to the unit of the interval is
kept as a fraction `scale / grid`.
-/

namespace QuerySteps.Decimal

/-- A double and the reals that round to it, in units of `2 ^ exponent`. -/
structure Interval where
  low : Nat
  value : Nat
  high : Nat
  exponent : Int
  closed : Bool

/-- The number of fractions that 52 bits of a double tell apart. -/
def fractionCount : Nat := 4503599627370496

/-- The number of exponents that 11 bits of a double tell apart. -/
def exponentCount : Nat := 2048

/-- The interval of a positive double, in quarters of its last bit. -/
def Interval.ofFloat (x : Float) : Interval :=
  let bits := x.toBits.toNat
  let fraction : Nat := bits % fractionCount
  let biased : Nat := bits / fractionCount % exponentCount
  let significand : Nat := if biased = 0 then fraction else fractionCount + fraction
  let exponent : Int := if biased = 0 then -1076 else (biased : Int) - 1077
  let value : Nat := 4 * significand
  { low := if fraction = 0 ∧ 1 < biased then value - 1 else value - 2
    value := value
    high := value + 2
    exponent := exponent
    closed := significand % 2 = 0 }

/-- The numerator of `2 ^ exponent / 10 ^ power`. -/
def Interval.scale (i : Interval) (power : Int) : Nat :=
  Nat.pow 2 i.exponent.toNat * Nat.pow 10 (-power).toNat

/-- The denominator of `2 ^ exponent / 10 ^ power`. -/
def Interval.grid (i : Interval) (power : Int) : Nat :=
  Nat.pow 2 (-i.exponent).toNat * Nat.pow 10 power.toNat

/-- Whether `n * 10 ^ power` rounds to the double of the interval. -/
def Interval.holds (i : Interval) (power : Int) (n : Nat) : Bool :=
  let point := n * i.grid power
  let low := i.low * i.scale power
  let high := i.high * i.scale power
  if i.closed then low ≤ point && point ≤ high else low < point && point < high

/-- The point of the grid of `10 ^ power` that is nearest to the double, if one is in the
interval. -/
def Interval.hit? (i : Interval) (power : Int) : Option Nat :=
  let scaled := i.value * i.scale power
  let grid := i.grid power
  let below := scaled / grid
  let above := below + 1
  let rest := scaled % grid
  let nearest :=
    if 2 * rest < grid then below
    else if grid < 2 * rest then above
    else if below % 2 = 0 then below else above
  let other := if nearest = below then above else below
  if nearest ≠ 0 ∧ i.holds power nearest then some nearest
  else if other ≠ 0 ∧ i.holds power other then some other
  else none

/-- The powers of ten that doubles reach, the highest first. -/
def powers : List Int :=
  (List.range 634).map fun (n : Nat) => 309 - (n : Int)

/-- The shortest decimal that reads back as the given positive double. -/
def shortest (x : Float) : Decimal :=
  let i := Interval.ofFloat x
  let found := powers.findSome? fun power => (i.hit? power).map (Decimal.mk · power)
  found.getD ⟨0, 0⟩

end QuerySteps.Decimal
