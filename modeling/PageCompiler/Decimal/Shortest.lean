import PageCompiler.Decimal.Binary
/-!
# `PageCompiler.Decimal.Shortest`: the fewest digits that read back

A decimal reads back as `m * 2 ^ q` when it lies in the interval of reals that round to that
number. The ends of the interval belong to it exactly when the mantissa is even. `shortest` tries
one digit, then two, and so on. At each length it looks at the two neighbours of the number on the
decimal grid, and it takes the nearer one that lies in the interval.
-/

set_option autoImplicit false

namespace PageCompiler.Decimal

/-- A decimal number `digits * 10 ^ exponent`. -/
structure Digits where
  digits : Nat
  exponent : Int
  deriving DecidableEq, Repr

/-- The number of decimal digits of a natural number, at least one. -/
def digitCount (n : Nat) : Nat :=
  (Nat.toDigits 10 n).length

/-- The exponent `e` with `10 ^ e ≤ num / den < 10 ^ (e + 1)`, for positive arguments. -/
def magnitude (num den : Nat) : Int :=
  if den ≤ num then (digitCount (num / den) : Int) - 1
  else -(digitCount ((den - 1) / num) : Int)

/-- The reals that round to a number, times `den`: from `low` to `high` around `value`. -/
structure Interval where
  low : Nat
  value : Nat
  high : Nat
  den : Nat
  closed : Bool

/-- The interval of `m * 2 ^ q`, for positive `m`. Below a power of two the next number is only
half as far away. -/
def Interval.around (m : Nat) (q : Int) : Interval :=
  let (unit, den) := ratio 1 (q - 2)
  let down := if m == Binary.leastNormal && Binary.leastExponent < q then 1 else 2
  { low := (4 * m - down) * unit, value := 4 * m * unit, high := (4 * m + 2) * unit,
    den := den, closed := m % 2 == 0 }

/-- The multiple `d * 10 ^ e` lies in the interval. -/
def Interval.holds (i : Interval) (d : Nat) (e : Int) : Bool :=
  let (up, down) := if 0 ≤ e then (Nat.pow 10 e.toNat, 1) else (1, Nat.pow 10 (-e).toNat)
  let x := d * up * i.den
  if i.closed then i.low * down ≤ x && x ≤ i.high * down
  else i.low * down < x && x < i.high * down

/-- The neighbour of the interval's value on the grid `10 ^ e` that lies in the interval. Of two,
the nearer one wins, and the even one if both are as near. -/
def Interval.neighbour? (i : Interval) (e : Int) : Option Nat :=
  let (num, den) :=
    if 0 ≤ e then (i.value, i.den * Nat.pow 10 e.toNat)
    else (i.value * Nat.pow 10 (-e).toNat, i.den)
  let below := num / den
  let nearest := roundHalfEven num den
  let other := if nearest == below then below + 1 else below
  if i.holds nearest e then some nearest
  else if i.holds other e then some other
  else none

/-- The same decimal without zeros at the end of its digits. -/
def stripZeros (fuel : Nat) (d : Digits) : Digits :=
  match fuel with
  | 0 => d
  | fuel + 1 =>
    if d.digits % 10 == 0 && d.digits != 0 then
      stripZeros fuel { digits := d.digits / 10, exponent := d.exponent + 1 }
    else d

/-- The shortest decimal that reads back as `m * 2 ^ q`, for positive `m`. Seventeen digits are
always enough. -/
def shortest (m : Nat) (q : Int) : Digits :=
  let i := Interval.around m q
  let top := magnitude i.value i.den
  let attempt (n : Nat) : Option Digits :=
    (i.neighbour? (top - n)).map fun d => { digits := d, exponent := top - n }
  let found := (List.range 17).findSome? attempt
  stripZeros 20 (found.getD { digits := 0, exponent := 0 })

end PageCompiler.Decimal
