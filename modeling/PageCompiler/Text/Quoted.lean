import PageCompiler.Text.Printable

/-!
# `PageCompiler.Text.Quoted`: texts in quotes

`quoted` shows a text between quotes so that every character of it can be told: what cannot be
shown is written by its number. Single quotes are taken unless double ones save an escape.
`quotedCodes` does the same for codes, of which some may be halves of characters.
-/

set_option autoImplicit false

namespace PageCompiler.Text

/-- A code by its number, with as many digits as it needs of two, four and eight. -/
def numbered (n : Nat) : List Char :=
  if n < 0x100 then '\\' :: 'x' :: hexDigits 2 n
  else if n < 0x10000 then '\\' :: 'u' :: hexDigits 4 n
  else '\\' :: 'U' :: hexDigits 8 n

/-- One character of a text between quotes of a kind. -/
def quotedChar (quote c : Char) : List Char :=
  if c == quote || c == '\\' then ['\\', c]
  else if c == '\n' then ['\\', 'n']
  else if c == '\r' then ['\\', 'r']
  else if c == '\t' then ['\\', 't']
  else if isPrintable c then [c]
  else numbered c.toNat

/-- The quote for a text: the double one if it holds single ones only. -/
def quoteFor (s : List Char) : Char :=
  if s.contains '\x27' && !s.contains '"' then '"' else '\x27'

/-- A text in quotes. -/
def quoted (s : String) : String :=
  let quote := quoteFor s.toList
  String.ofList (quote :: s.toList.flatMap (quotedChar quote) ++ [quote])

/-- A text in quotes, given by codes. -/
def quotedCodes (codes : List Nat) : String :=
  let quote := quoteFor (codes.map Char.ofNat)
  let shown := codes.flatMap fun n =>
    if n.isValidChar then quotedChar quote (Char.ofNat n) else numbered n
  String.ofList (quote :: shown ++ [quote])

end PageCompiler.Text
