import PageCompiler.Text.Digit

/-!
# `PageCompiler.Text.Surrogate`: halves of characters

Sixteen-bit encodings write a large character as a pair of halves. A half alone is no character and
no text holds it. Data from outside may hold one all the same. Then another character stands for
it, so that the rest of the data is not lost.

The characters that stand for halves are a block of characters that the data does not hold. So each
data has its own `StandIns`, and a character of the data is never taken for a half.
-/

set_option autoImplicit false

namespace PageCompiler.Text

/-- The first half of a pair. -/
def isHighHalf (n : Nat) : Bool :=
  0xd800 ≤ n && n < 0xdc00

/-- The second half of a pair. -/
def isLowHalf (n : Nat) : Bool :=
  0xdc00 ≤ n && n < 0xe000

/-- The code of a half. -/
def isHalfCode (n : Nat) : Bool :=
  isHighHalf n || isLowHalf n

/-- The code of the character of a pair. -/
def joinHalves (high low : Nat) : Nat :=
  0x10000 + (high - 0xd800) * 0x400 + (low - 0xdc00)

/-- The codes of a text in which all pairs are joined. -/
def joinPairs : List Nat → List Nat
  | [] => []
  | [a] => [a]
  | a :: b :: rest =>
    if isHighHalf a && isLowHalf b then joinHalves a b :: joinPairs rest
    else a :: joinPairs (b :: rest)

/-- The number of `width` hexadecimal digits at the start of a text. -/
def codeAt? (width : Nat) (s : List Char) : Option Nat :=
  let digits := (s.take width).takeWhile isHexDigit
  if digits.length == width then some (hexNumber digits) else none

/-- The code of a large character that an escape denotes, which is eight digits behind `U` or two
times four digits, each behind `u`. The text starts behind the backslash. -/
def largeCode? : List Char → Option Nat
  | 'U' :: rest => codeAt? 8 rest
  | 'u' :: rest =>
    match rest.drop 4 with
    | '\\' :: 'u' :: more => do
      let high ← codeAt? 4 rest
      let low ← codeAt? 4 more
      if isHighHalf high && isLowHalf low then some (joinHalves high low) else none
    | _ => none
  | _ => none

/-- The codes of the large characters that the escapes in a text denote. -/
def escapedCodes : List Char → List Nat
  | [] => []
  | c :: rest => (if c == '\\' then (largeCode? rest).toList else []) ++ escapedCodes rest

/-- A block of characters that stand for halves. The first one stands for the first half, and so
on. -/
structure StandIns where
  /-- The code of the first character. -/
  first : Nat
  deriving DecidableEq, Repr

namespace StandIns

/-- The number of halves. -/
def width : Nat := 2048

/-- The code lies in the block. -/
def has (b : StandIns) (n : Nat) : Bool :=
  b.first ≤ n && n < b.first + width

/-- The code of the first character of all blocks. No script has characters from there on. -/
def least : Nat := 0x40000

/-- The blocks to choose from. -/
def blocks : List StandIns :=
  (List.range 320).map fun k => { first := least + k * width }

/-- A block that holds none of the codes. -/
def free (codes : List Nat) : StandIns :=
  let large := codes.filter (least ≤ ·)
  (blocks.find? fun b => !large.any b.has).getD { first := least }

/-- The characters for the halves in a text: none of them is in the text or denoted by an escape in
it. -/
def ofText (s : List Char) : StandIns :=
  free (s.map Char.toNat ++ escapedCodes s)

/-- The character of a code, or what stands for it if it is a half. -/
def char (b : StandIns) (n : Nat) : Char :=
  Char.ofNat (if isHalfCode n then b.first + (n - 0xd800) else n)

/-- A character that stands for a half. -/
def isHalf (b : StandIns) (c : Char) : Bool :=
  b.has c.toNat

/-- The code of a character, or that of the half it stands for. -/
def code (b : StandIns) (c : Char) : Nat :=
  if b.isHalf c then c.toNat - b.first + 0xd800 else c.toNat

/-- A text with a half in it. -/
def occurIn (b : StandIns) (s : String) : Bool :=
  s.toList.any b.isHalf

end StandIns

end PageCompiler.Text
