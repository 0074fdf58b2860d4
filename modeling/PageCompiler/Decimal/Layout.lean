import PageCompiler.Decimal.Shortest
/-!
# `PageCompiler.Decimal.Layout`: how a number is written

A floating-point number is written with the fewest digits that read back. A `Layout` holds the
remaining choices of a format: where positional writing ends, how wide an exponent is, and what
the numbers without digits look like.
-/

set_option autoImplicit false

namespace PageCompiler.Decimal

/-- The choices of a number format. -/
structure Layout where
  /-- The least decimal exponent that is written positionally. -/
  positionalFrom : Int
  /-- The least decimal exponent, above the positional ones, that is written with an exponent. -/
  positionalTo : Int
  /-- The least number of exponent digits. -/
  exponentWidth : Nat
  infinity : String
  nan : String

/-- Numbers in property values: positional from `0.0001` up to below ten to the sixteenth. -/
def Layout.plain : Layout :=
  { positionalFrom := -4, positionalTo := 16, exponentWidth := 2, infinity := "inf", nan := "nan" }

/-- Numbers in data files: the same digits, with the capitalised names of the format. -/
def Layout.data : Layout :=
  { Layout.plain with infinity := "Infinity", nan := "NaN" }

/-- `n` zeros. -/
def zeros (n : Nat) : String :=
  String.ofList (List.replicate n '0')

/-- Digits with a point after the first `before` of them, where a negative `before` puts zeros
behind the point. There is always a digit on both sides. -/
def positional (ds : List Char) (before : Int) : String :=
  if before ≤ 0 then "0." ++ zeros (-before).toNat ++ String.ofList ds
  else
    let n := before.toNat
    if ds.length ≤ n then String.ofList ds ++ zeros (n - ds.length) ++ ".0"
    else String.ofList (ds.take n) ++ "." ++ String.ofList (ds.drop n)

/-- The digits of a number with a decimal exponent behind them. -/
def scientific (width : Nat) (ds : List Char) (exponent : Int) : String :=
  let mantissa :=
    match ds with
    | [] => "0"
    | [d] => String.ofList [d]
    | d :: rest => String.ofList [d] ++ "." ++ String.ofList rest
  let size := Nat.toDigits 10 exponent.natAbs
  mantissa ++ "e" ++ (if exponent < 0 then "-" else "+") ++ zeros (width - size.length) ++
    String.ofList size

/-- An unsigned decimal in a layout. -/
def Layout.writeDigits (f : Layout) (d : Digits) : String :=
  let ds := Nat.toDigits 10 d.digits
  let exponent := d.exponent + ds.length - 1
  if f.positionalFrom ≤ exponent && exponent < f.positionalTo then positional ds (exponent + 1)
  else scientific f.exponentWidth ds exponent

/-- The text of a number read off its bits. -/
def Layout.writeBinary (f : Layout) : Binary → String
  | .nan => f.nan
  | .infinite negative => (if negative then "-" else "") ++ f.infinity
  | .finite negative m q =>
    (if negative then "-" else "") ++
      f.writeDigits (if m == 0 then { digits := 0, exponent := 0 } else shortest m q)

/-- The text of a floating-point number. -/
def Layout.write (f : Layout) (x : Float) : String :=
  f.writeBinary (Binary.ofFloat x)

/-- A floating-point number rounded to `places` decimals. The exact value decides, and a half goes
to the even neighbour. -/
def roundTo (places : Nat) (x : Float) : Float :=
  match Binary.ofFloat x with
  | .finite negative m q =>
    let (num, den) := ratio m q
    let y := Float.ofScientific (roundHalfEven (num * Nat.pow 10 places) den) true places
    if negative then -y else y
  | _ => x

end PageCompiler.Decimal
