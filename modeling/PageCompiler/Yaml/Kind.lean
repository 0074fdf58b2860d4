import PageCompiler.Scalar
import PageCompiler.Text.Lines
import PageCompiler.Yaml.Moment

/-!
# `PageCompiler.Yaml.Kind`: what a plain scalar denotes

A plain scalar is a text unless it has the form of something else: a truth value, a number, a
date, nothing, or one of the two signs `<<` and `=`. `Kind.ofPlain` decides by the form alone.

Some scalars have the form of a number or a date and still denote none. `Kind.fault?` says what is
wrong with them.
-/

set_option autoImplicit false

namespace PageCompiler.Yaml

open Text Decimal

/-- What a scalar denotes. -/
inductive Kind where
  | text
  | truth
  | float
  | int
  | nothing
  | moment
  /-- The sign `<<`, which merges another mapping into the one it is a key of. -/
  | merge
  /-- The sign `=`, which is a text where it is a key. -/
  | default
  deriving DecidableEq, Repr

/-- A scalar that denotes nothing that there is. -/
inductive BadScalar where
  /-- The sign of a base and no digit after it. -/
  | noDigits (base : Nat)
  | numeral (e : NumeralTooLong)
  /-- A number in base sixty that is out of range. -/
  | tooLarge
  | moment (e : MomentError)
  /-- The code of a character that there is not. -/
  | code (n : Nat)
  deriving DecidableEq, Repr

/-- What is said about a scalar that denotes nothing. -/
def BadScalar.message : BadScalar → String
  | .noDigits base => "invalid literal for int() with base " ++ toString base ++ ": ''"
  | .numeral e => e.message
  | .tooLarge => "int too large to convert to float"
  | .moment e => e.message
  | .code n =>
    if n < 0x80000000 then "chr() arg not in range(0x110000)"
    else "Python int too large to convert to C int"

/-- The scalar is out of the range of what a machine word or a floating-point number can hold. -/
def BadScalar.isOverflow : BadScalar → Bool
  | .tooLarge => true
  | .code n => 0x80000000 ≤ n
  | _ => false

namespace Kind

/-- The spellings of the truth values. -/
def truthWords : List String :=
  ["yes", "Yes", "YES", "no", "No", "NO", "true", "True", "TRUE", "false", "False", "FALSE",
   "on", "On", "ON", "off", "Off", "OFF"]

/-- The spellings of nothing. -/
def nothingWords : List String :=
  ["", "~", "null", "Null", "NULL"]

/-- The spellings of infinity, behind a sign or not. -/
def infinityWords : List String :=
  [".inf", ".Inf", ".INF"]

/-- The spellings of the number that is none. -/
def nanWords : List String :=
  [".nan", ".NaN", ".NAN"]

/-- Digits and the bar that groups them. -/
def isDigitOrBar (c : Char) : Bool :=
  isAsciiDigit c || c == '_'

/-- A text without the sign in front. -/
def unsigned : List Char → List Char
  | [] => []
  | c :: rest => if c == '-' || c == '+' then rest else c :: rest

/-- The parts of a text between colons. -/
def parts : List Char → List (List Char)
  | [] => [[]]
  | c :: rest => if c == ':' then [] :: parts rest else consLine c (parts rest)

/-- A digit, then digits and bars. -/
def isWhole : List Char → Bool
  | [] => false
  | c :: rest => isAsciiDigit c && rest.all isDigitOrBar

/-- A digit other than zero, then digits and bars. -/
def isCounting : List Char → Bool
  | [] => false
  | c :: rest => isAsciiDigit c && c != '0' && rest.all isDigitOrBar

/-- A number below sixty in one or two digits. -/
def isSixtieth : List Char → Bool
  | [c] => isAsciiDigit c
  | [a, b] => '0' ≤ a && a ≤ '5' && isAsciiDigit b
  | _ => false

/-- A number in base sixty, whose first part has the given form. -/
def isSixties (first : List Char → Bool) (s : List Char) : Bool :=
  match parts s with
  | head :: part :: rest => first head && isSixtieth part && rest.all isSixtieth
  | _ => false

/-- An exponent, or nothing. The exponent has a sign. -/
def isExponent : List Char → Bool
  | [] => true
  | e :: sign :: digits =>
    (e == 'e' || e == 'E') && (sign == '-' || sign == '+') && !digits.isEmpty &&
      digits.all isAsciiDigit
  | _ => false

/-- What follows a point: digits and bars, and an exponent. -/
def isFraction (s : List Char) : Bool :=
  isExponent (s.dropWhile isDigitOrBar)

/-- A number with a point. -/
def isFloat (s : List Char) : Bool :=
  let body := unsigned s
  let whole := body.takeWhile (· != '.')
  if infinityWords.contains (String.ofList body) || nanWords.contains (String.ofList s) then true
  else
    match body.drop whole.length with
    | [] => false
    | _ :: fraction =>
      if whole.isEmpty then
        -- Without digits before the point there is no sign, and a digit after the point.
        body.length == s.length && fraction.head?.any isAsciiDigit && isFraction fraction
      else
        (isWhole whole && isFraction fraction) ||
          (isSixties isWhole whole && fraction.all isDigitOrBar)

/-- A whole number, in one of the bases ten, two, eight, sixteen and sixty. -/
def isInt (s : List Char) : Bool :=
  match unsigned s with
  | ['0'] => true
  | '0' :: 'b' :: rest => !rest.isEmpty && rest.all fun c => c == '0' || c == '1' || c == '_'
  | '0' :: 'x' :: rest => !rest.isEmpty && rest.all fun c => isHexDigit c || c == '_'
  | '0' :: rest => rest.all fun c => ('0' ≤ c && c ≤ '7') || c == '_'
  | body => isCounting body || isSixties isCounting body

/-- What a plain scalar denotes. -/
def ofPlain (s : List Char) : Kind :=
  if truthWords.contains (String.ofList s) then .truth
  else if isFloat s then .float
  else if isInt s then .int
  else if s == ['<', '<'] then .merge
  else if nothingWords.contains (String.ofList s) then .nothing
  else if (Moment.parse? s).isSome then .moment
  else if s == ['='] then .default
  else .text

/-- The most parts a number in base sixty with a point can have: the value of a further part would
be beyond every floating-point number. -/
def maxSixties : Nat := 174

/-- A numeral of too many digits. -/
def longFault? (digits : List Char) : Option BadScalar :=
  if maxIntegerDigits < digits.length then some (.numeral ⟨digits.length⟩) else none

/-- What is wrong with a text that has the form of a whole number. -/
def intFault? (s : List Char) : Option BadScalar :=
  match unsigned (s.filter (· != '_')) with
  | ['0', 'b'] => some (.noDigits 2)
  | ['0', 'x'] => some (.noDigits 16)
  | '0' :: _ => none
  | digits => (parts digits).findSome? longFault?

/-- What is wrong with a text that has the form of a number with a point. -/
def floatFault? (s : List Char) : Option BadScalar :=
  if maxSixties < (parts s).length then some .tooLarge else none

/-- What is wrong with a text of a kind. -/
def fault? (k : Kind) (s : List Char) : Option BadScalar :=
  match k with
  | .int => intFault? s
  | .float => floatFault? s
  | .moment => (Moment.parse? s).bind fun m => m.fault?.map .moment
  | _ => none

end Kind

end PageCompiler.Yaml
