import UrlRouting.Decimal.Integer

/-
  The fewest decimal digits that read back as a given binary fraction.
  A float is `mantissa * 2 ^ exponent`; the reals that round to it form an interval about it,
  its ends included when the mantissa is even. On the grids of 1, 2, … digits the value has two
  neighbours; the first grid with a neighbour in the interval gives the answer, the nearer of
  two, and of two equally near the upper one.
-/

namespace UrlRouting.Decimal

/-- What the bits of a float say. -/
inductive Binary where
  | notANumber
  | infinite (negative : Bool)
  /-- The value `mantissa * 2 ^ exponent`. `atPower` holds where the spacing of floats doubles,
  that is where the next float below is only half as far as the next above. -/
  | finite (negative : Bool) (mantissa : Nat) (exponent : Int) (atPower : Bool)
  deriving DecidableEq, Repr

/-- Splits the 64 bits into sign, 11 bits of exponent and 52 bits of fraction. -/
def Binary.ofBits (bits : Nat) : Binary :=
  let negative := decide (0x8000000000000000 ≤ bits)
  let power : Nat := (bits >>> 52) % 0x800
  let part := bits % 0x10000000000000
  if power = 0x7FF then
    if part = 0 then .infinite negative else .notANumber
  else if power = 0 then .finite negative part (-1074) false
  else .finite negative (0x10000000000000 + part) ((power : Int) - 1075) (part = 0 && 1 < power)

def Binary.ofFloat (x : Float) : Binary := .ofBits x.toBits.toNat

/-- The interval of reals that round to a float, in units of a quarter of its spacing. -/
structure Interval where
  low : Nat
  centre : Nat
  high : Nat
  /-- Whether the two ends belong to the interval. -/
  closed : Bool
  deriving DecidableEq, Repr

def Interval.about (mantissa : Nat) (atPower : Bool) : Interval where
  low := 4 * mantissa - if atPower then 1 else 2
  centre := 4 * mantissa
  high := 4 * mantissa + 2
  closed := mantissa % 2 = 0

/-- Whether a number at or below the centre is in the interval. -/
def Interval.reachesDown (i : Interval) (unit n : Nat) : Bool :=
  if i.closed then i.low * unit ≤ n else i.low * unit < n

/-- Whether a number at or above the centre is in the interval. -/
def Interval.reachesUp (i : Interval) (unit n : Nat) : Bool :=
  if i.closed then n ≤ i.high * unit else n < i.high * unit

/-- The decimal `significand * 10 ^ power`. -/
structure Scaled where
  significand : Nat
  power : Int
  deriving DecidableEq, Repr

/-- The first power of ten above the significand's digits is written as a single one. -/
def Scaled.above (c : Nat) (power : Int) : Scaled :=
  if c + 1 = 10 then ⟨1, power + 1⟩ else ⟨c + 1, power⟩

/-- The neighbour on the grid of multiples of `10 ^ power` that the interval holds, if any.
`unit` and `step` are a quarter of the float's spacing and a step of the grid, both as multiples
of one small number. -/
def onGrid? (i : Interval) (unit step : Nat) (power : Int) : Option Scaled :=
  let below := i.centre * unit / step
  let down := i.reachesDown unit (below * step)
  let up := i.reachesUp unit ((below + 1) * step)
  let upIsNearer := step ≤ 2 * (i.centre * unit - below * step)
  if up && (!down || upIsNearer) then some (.above below power)
  else if down then some ⟨below, power⟩
  else none

/-- A quarter of the float's spacing and a step of the grid, over their common denominator. -/
def scales (exponent power : Int) : Nat × Nat :=
  (Nat.pow 10 (-power).toNat <<< (exponent - 2).toNat,
    Nat.pow 10 power.toNat <<< (2 - exponent).toNat)

/-- Tries `grids` grids, each ten times finer than the one before; at last the number below. -/
def search (i : Interval) (exponent : Int) : (grids : Nat) → (power : Int) → Scaled
  | 0, power =>
    let (unit, step) := scales exponent power
    ⟨i.centre * unit / step, power⟩
  | grids + 1, power =>
    let (unit, step) := scales exponent power
    match onGrid? i unit step power with
    | some s => s
    | none => search i exponent grids (power - 1)

/-- The power of ten of the leading digit of `mantissa * 2 ^ exponent`, which is at least
`2 ^ (-1074)`; `10 ^ 324` times that is more than one. -/
def leadingPower (mantissa : Nat) (exponent : Int) : Int :=
  let scaled := ((mantissa <<< exponent.toNat) * Nat.pow 10 324) >>> (-exponent).toNat
  ((digits scaled).length : Int) - 325

/-- The shortest decimal of `mantissa * 2 ^ exponent`; seventeen digits always suffice. -/
def shortest (mantissa : Nat) (exponent : Int) (atPower : Bool) : Scaled :=
  if mantissa = 0 then ⟨0, 0⟩
  else search (.about mantissa atPower) exponent 17 (leadingPower mantissa exponent)

end UrlRouting.Decimal
