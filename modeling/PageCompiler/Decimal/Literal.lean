import PageCompiler.Text.Blank
import PageCompiler.Text.Digit
import PageCompiler.Text.Word

/-!
# `PageCompiler.Decimal.Literal`: reading numbers

A decimal literal has an optional sign, digits with an optional point among them, and an optional
exponent. The digits may be those of any script. A literal without point and exponent denotes an
integer. Any other denotes a floating-point number, the one nearest to the decimal.

Settings are read more leniently: white space may stand around a number, single underscores may
stand between digits, and a floating-point number may be infinite or no number at all.
-/

set_option autoImplicit false

namespace PageCompiler.Decimal

open Text

/-- The parts of a decimal literal. -/
structure Literal where
  negative : Bool
  whole : List Char
  /-- The digits behind the point, if there is a point. -/
  fraction : Option (List Char)
  /-- The sign and the digits of the exponent, if there is one. -/
  exponent : Option (Bool × List Char)
  deriving DecidableEq, Repr

/-- Takes one sign off the front. The answer says whether it was a minus. -/
def takeSign : List Char → Bool × List Char
  | '-' :: rest => (true, rest)
  | '+' :: rest => (false, rest)
  | s => (false, s)

/-- Reads what follows the digits of a literal: nothing, or an exponent. -/
def readExponent? : List Char → Option (Option (Bool × List Char))
  | [] => some none
  | c :: rest =>
    if c == 'e' || c == 'E' then
      let (negative, ds) := takeSign rest
      if !ds.isEmpty && ds.all isDigit then some (some (negative, ds)) else none
    else none

/-- Reads a text that is a decimal literal from end to end. -/
def Literal.parse? (s : List Char) : Option Literal :=
  let (negative, body) := takeSign s
  let whole := body.takeWhile isDigit
  match body.dropWhile isDigit with
  | '.' :: rest =>
    let fraction := rest.takeWhile isDigit
    if whole.isEmpty && fraction.isEmpty then none
    else
      (readExponent? (rest.dropWhile isDigit)).map fun exponent =>
        { negative, whole, fraction := some fraction, exponent }
  | rest =>
    if whole.isEmpty then none
    else
      (readExponent? rest).map fun exponent => { negative, whole, fraction := none, exponent }

/-- A literal without point and exponent. -/
def Literal.isInteger (l : Literal) : Bool :=
  l.fraction.isNone && l.exponent.isNone

/-- The integer of a literal without point and exponent. -/
def Literal.toInt (l : Literal) : Int :=
  if l.negative then -(digitsValue l.whole : Int) else digitsValue l.whole

/-- The number nearest to `mantissa * 10 ^ scale`. Decimals beyond the range of the format are
settled by their size alone. -/
def nearestFloat (mantissa : Nat) (scale : Int) : Float :=
  if mantissa == 0 then 0.0
  else
    let size := (Nat.toDigits 10 mantissa).length + scale
    if 310 ≤ size then 1.0 / 0.0
    else if size ≤ -324 then 0.0
    else if 0 ≤ scale then Float.ofScientific mantissa false scale.toNat
    else Float.ofScientific mantissa true (-scale).toNat

/-- The floating-point number nearest to a literal. -/
def Literal.toFloat (l : Literal) : Float :=
  let fraction := l.fraction.getD []
  let power : Int :=
    match l.exponent with
    | none => 0
    | some (negative, ds) => if negative then -(digitsValue ds : Int) else digitsValue ds
  let x := nearestFloat (digitsValue (l.whole ++ fraction)) (power - fraction.length)
  if l.negative then -x else x

/-- The most digits an integer literal may have. -/
def maxIntegerDigits : Nat := 4300

/-- White space that may stand around a number in a setting. The information separators may
not. -/
def isNumberMargin (c : Char) : Bool :=
  isBlank c && !(0x1c ≤ c.toNat && c.toNat ≤ 0x1f)

/-- Drops underscores that stand between two digits. Any other underscore spoils the text.
`afterDigit` says whether the character before was a digit. -/
def dropUnderscores? (afterDigit : Bool) : List Char → Option (List Char)
  | [] => some []
  | '_' :: rest =>
    match rest with
    | c :: _ => if afterDigit && isDigit c then dropUnderscores? false rest else none
    | [] => none
  | c :: rest => (dropUnderscores? (isDigit c) rest).map (c :: ·)

/-- The bare number of a setting: without margins and digit separators. -/
def settingNumber? (s : List Char) : Option (List Char) :=
  dropUnderscores? false (dropRightWhile isNumberMargin (s.dropWhile isNumberMargin))

/-- Reads an integer setting. Integers with too many digits are refused. -/
def intSetting? (s : List Char) : Option Int := do
  let l ← Literal.parse? (← settingNumber? s)
  if l.isInteger && l.whole.length ≤ maxIntegerDigits then some l.toInt else none

/-- Reads a floating-point setting. -/
def floatSetting? (s : List Char) : Option Float := do
  let bare ← settingNumber? s
  let (negative, name) := takeSign bare
  let word := String.ofList (name.map asciiLower)
  if word == "inf" || word == "infinity" then
    some (if negative then -(1.0 / 0.0) else 1.0 / 0.0)
  else if word == "nan" then some (0.0 / 0.0)
  else (Literal.parse? bare).map Literal.toFloat

end PageCompiler.Decimal
