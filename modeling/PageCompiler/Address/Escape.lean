import PageCompiler.Text.Digit
import PageCompiler.Text.Utf8

/-!
# `PageCompiler.Address.Escape`: percent escapes

In an address a byte can be written as a percent sign with two hexadecimal digits. `escape` writes
all characters this way but those that may stand as they are. Escapes in the text are kept.
`unescape` resolves all escapes.
-/

set_option autoImplicit false

namespace PageCompiler.Address

open Text

/-- A byte as an escape. -/
def escapeByte (b : UInt8) : List Char :=
  let digit (n : Nat) : Char := if n < 10 then Char.ofNat (48 + n) else Char.ofNat (55 + n)
  ['%', digit (b.toNat / 16), digit (b.toNat % 16)]

/-- A character as the escapes of its bytes. -/
def escapeChar (c : Char) : List Char :=
  (Utf8.encode (String.ofList [c])).flatMap escapeByte

/-- A text in which only the characters that satisfy `keep`, and escapes, stand as they are. -/
def escape (keep : Char → Bool) : List Char → List Char
  | [] => []
  | '%' :: a :: b :: rest =>
    if isHexDigit a && isHexDigit b then '%' :: a :: b :: escape keep rest
    else (if keep '%' then ['%'] else escapeChar '%') ++ escape keep (a :: b :: rest)
  | c :: rest => (if keep c then [c] else escapeChar c) ++ escape keep rest

/-- The bytes of a text with its escapes resolved. -/
def unescapeBytes : List Char → List UInt8
  | [] => []
  | '%' :: a :: b :: rest =>
    match hexValue? a, hexValue? b with
    | some x, some y => UInt8.ofNat (16 * x + y) :: unescapeBytes rest
    | _, _ => 0x25 :: unescapeBytes (a :: b :: rest)
  | c :: rest => Utf8.encode (String.ofList [c]) ++ unescapeBytes rest

/-- A text with its escapes resolved. Bytes that are no text are replaced. -/
def unescape (s : List Char) : List Char :=
  Utf8.decodeLossy (unescapeBytes s)

/-- The characters of ASCII that can be shown, but the space and those in `special`. -/
def shownBut (special : List Char) (c : Char) : Bool :=
  0x20 < c.toNat && c.toNat < 0x7f && !special.contains c

/-- The characters that a name and a password keep. -/
def keptInUserInfo : Char → Bool :=
  shownBut ['"', '#', '<', '>', '?', '\x60', '\x7b', '\x7d', '/', ';', '=', '@', '[', '\\', ']',
    '^', '|']

/-- The characters that a host name keeps. -/
def keptInHost : Char → Bool :=
  shownBut ['#', '/', ':', '<', '>', '?', '@', '[', ']', '^']

/-- The characters that a path keeps. -/
def keptInPath : Char → Bool :=
  shownBut ['"', '#', '<', '>', '?', '\x60', '\x7b', '\x7d']

/-- The characters that a query keeps. -/
def keptInQuery : Char → Bool :=
  shownBut ['"', '#', '<', '>']

/-- The characters that a fragment keeps. -/
def keptInFragment : Char → Bool :=
  shownBut ['"', '<', '>', '\x60']

end PageCompiler.Address
