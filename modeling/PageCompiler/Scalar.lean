import PageCompiler.Decimal.Literal
import PageCompiler.Value

/-!
# `PageCompiler.Scalar`: values without structure

A scalar is written as quoted text, as `true` or `false`, as a number, or as itself. `Scalar.read`
tells them apart and never refuses a text, but for one case: an integer of too many digits.

Inside quotes a backslash before the quote stands for the quote, and two backslashes stand for
one. The quotes are put back first.
-/

set_option autoImplicit false

namespace PageCompiler

open Text Decimal

/-- An integer literal has more digits than the limit allows. -/
structure NumeralTooLong where
  digits : Nat
  deriving DecidableEq, Repr

/-- What is said about an integer literal of too many digits. -/
def NumeralTooLong.message (e : NumeralTooLong) : String :=
  "Exceeds the limit (" ++ toString maxIntegerDigits ++
    " digits) for integer string conversion: value has " ++ toString e.digits ++
    " digits; use sys.set_int_max_str_digits() to increase the limit"

namespace Scalar

/-- The two quotation marks. -/
def isQuote (c : Char) : Bool :=
  c == '"' || c == '\x27'

/-- Replaces every backslash before `quote`, together with it, by `quote`. -/
def unescapeQuotes (quote : Char) : List Char → List Char
  | [] => []
  | '\\' :: c :: rest =>
    if c == quote then quote :: unescapeQuotes quote rest
    else '\\' :: unescapeQuotes quote (c :: rest)
  | c :: rest => c :: unescapeQuotes quote rest

/-- Replaces every pair of backslashes by one. -/
def unescapeBackslashes : List Char → List Char
  | [] => []
  | '\\' :: '\\' :: rest => '\\' :: unescapeBackslashes rest
  | c :: rest => c :: unescapeBackslashes rest

/-- The text that stands between two quotes. -/
def unescape (quote : Char) (s : List Char) : List Char :=
  unescapeBackslashes (unescapeQuotes quote s)

/-- What stands between two equal quotes that enclose a whole text. -/
def quoted? : List Char → Option (Char × List Char)
  | [] => none
  | quote :: rest =>
    if isQuote quote && !rest.isEmpty && rest.getLast? == some quote then
      some (quote, rest.dropLast)
    else none

/-- The value of a literal. -/
def ofLiteral (l : Literal) : Except NumeralTooLong Value :=
  if l.isInteger then
    if l.whole.length ≤ maxIntegerDigits then .ok (.int l.toInt) else .error ⟨l.whole.length⟩
  else .ok (.float l.toFloat)

/-- The scalar that a text denotes (`coerce_scalar`). White space at its ends does not count. -/
def read (s : List Char) : Except NumeralTooLong Value :=
  let token := trim s
  match quoted? token with
  | some (quote, inner) => .ok (.text (String.ofList (unescape quote inner)))
  | none =>
    if token == "true".toList then .ok (.bool true)
    else if token == "false".toList then .ok (.bool false)
    else
      match Literal.parse? token with
      | some l => ofLiteral l
      | none => .ok (.text (String.ofList token))

end Scalar

end PageCompiler
