/-!
# `PageCompiler.Decimal.Binary`: the exact value of a floating-point number

A finite number of the 64-bit format is `± mantissa * 2 ^ exponent` with natural mantissa. All
exact decimal work of the library starts from that form.
-/

set_option autoImplicit false

namespace PageCompiler.Decimal

/-- What the bits of a floating-point number say. -/
inductive Binary where
  | nan
  | infinite (negative : Bool)
  | finite (negative : Bool) (mantissa : Nat) (exponent : Int)
  deriving DecidableEq, Repr

/-- The least exponent of the format. -/
def Binary.leastExponent : Int := -1074

/-- The mantissa at which the distance to the next smaller number halves. -/
def Binary.leastNormal : Nat := 0x10000000000000

/-- The sign, mantissa and exponent stored in 64 bits. -/
def Binary.ofBits (bits : UInt64) : Binary :=
  let n := bits.toNat
  let negative := n / 0x8000000000000000 == 1
  let stored : Nat := n / leastNormal % 2048
  let fraction : Nat := n % leastNormal
  if stored == 2047 then
    if fraction == 0 then .infinite negative else .nan
  else if stored == 0 then .finite negative fraction leastExponent
  else .finite negative (leastNormal + fraction) (leastExponent + (stored : Int) - 1)

/-- The exact reading of a floating-point number. -/
def Binary.ofFloat (x : Float) : Binary :=
  ofBits x.toBits

/-- Numerator and denominator of `m * 2 ^ q`. -/
def ratio (m : Nat) (q : Int) : Nat × Nat :=
  if 0 ≤ q then (m * Nat.pow 2 q.toNat, 1) else (m, Nat.pow 2 (-q).toNat)

/-- A quotient rounded to the nearest natural number, a half going to the even neighbour. -/
def roundHalfEven (num den : Nat) : Nat :=
  let whole := num / den
  let rest := num % den
  if 2 * rest < den then whole
  else if den < 2 * rest then whole + 1
  else if whole % 2 == 0 then whole
  else whole + 1

end PageCompiler.Decimal
