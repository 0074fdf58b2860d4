import PageCompiler.Decimal.Layout

/-!
# `PageCompiler.Decimal.Quotient`: quotients of whole numbers

`quotient` is the floating-point number nearest to a fraction, however large its parts are.
`mean` is a quotient rounded to two decimals. A mean beyond the range of the format is refused.
-/

set_option autoImplicit false

namespace PageCompiler.Decimal

/-- The number of binary digits. -/
def bitLength (n : Nat) : Nat :=
  if n == 0 then 0 else n.log2 + 1

/-- The floating-point number nearest to `num / den`. The fraction is scaled to a whole number with
two more binary digits than the format keeps. If the division leaves a rest, the last digit is made
odd, so that the rounding of the format sees on which side of a half the fraction lies. -/
def quotient (num den : Nat) : Float :=
  let shift : Int := 55 + bitLength den - bitLength num
  let n := if 0 ≤ shift then num * Nat.pow 2 shift.toNat else num
  let d := if 0 ≤ shift then den else den * Nat.pow 2 (-shift).toNat
  let whole := n / d
  let sticky := if n % d == 0 || whole % 2 == 1 then whole else whole + 1
  Float.scaleB (Float.ofNat sticky) (-shift)

/-- A quotient beyond the range of floating-point numbers. -/
structure QuotientTooLarge where
  deriving DecidableEq, Repr

/-- What is said about a quotient beyond the range. -/
def QuotientTooLarge.message (_ : QuotientTooLarge) : String :=
  "integer division result too large for a float"

/-- A total over a count, rounded to two decimals. Nothing has the mean zero. A total below zero
has the mean of its opposite with the other sign. -/
def mean (total : Int) (count : Nat) : Except QuotientTooLarge Float :=
  if count == 0 then .ok 0.0
  else
    let q := quotient total.natAbs count
    if q.isInf then .error {}
    else .ok (if total < 0 then -(roundTo 2 q) else roundTo 2 q)

end PageCompiler.Decimal
