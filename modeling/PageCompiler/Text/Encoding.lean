import PageCompiler.Text.Utf8

/-!
# `PageCompiler.Text.Encoding`: which Unicode encoding bytes are in

Data can come in any of the Unicode encodings. A byte order mark at the start tells which. Without
one, the zero bytes among the first four tell, since data starts with an ASCII character. `codes?`
reads bytes in the encoding they are in and drops the mark. It gives codes, since there may be
halves of characters among them.
-/

set_option autoImplicit false

namespace PageCompiler.Text

/-- The order of the bytes of a unit. -/
inductive ByteOrder where
  | big
  | little
  deriving DecidableEq, Repr

/-- A Unicode encoding. -/
inductive Encoding where
  | utf8
  | utf16 (order : ByteOrder)
  | utf32 (order : ByteOrder)
  deriving DecidableEq, Repr

namespace Encoding

/-- The encoding of bytes without a byte order mark. -/
def guess : List UInt8 → Encoding
  | [a, b] => if a == 0 then .utf16 .big else if b == 0 then .utf16 .little else .utf8
  | a :: b :: c :: d :: _ =>
    if a == 0 then (if b == 0 then .utf32 .big else .utf16 .big)
    else if b == 0 then (if c == 0 && d == 0 then .utf32 .little else .utf16 .little)
    else .utf8
  | _ => .utf8

/-- The encoding of bytes, and the bytes without their byte order mark. -/
def detect (bytes : List UInt8) : Encoding × List UInt8 :=
  match bytes with
  | 0x00 :: 0x00 :: 0xfe :: 0xff :: rest => (.utf32 .big, rest)
  | 0xff :: 0xfe :: 0x00 :: 0x00 :: rest => (.utf32 .little, rest)
  | 0xfe :: 0xff :: rest => (.utf16 .big, rest)
  | 0xff :: 0xfe :: rest => (.utf16 .little, rest)
  | 0xef :: 0xbb :: 0xbf :: rest => (.utf8, rest)
  | _ => (guess bytes, bytes)

/-- The number that bytes denote in an order. -/
def unitValue (order : ByteOrder) (bytes : List UInt8) : Nat :=
  let ordered :=
    match order with
    | .big => bytes
    | .little => bytes.reverse
  ordered.foldl (fun n b => n * 256 + b.toNat) 0

/-- The units of two bytes each. -/
def units16? (order : ByteOrder) : List UInt8 → Option (List Nat)
  | [] => some []
  | a :: b :: rest => (units16? order rest).map (unitValue order [a, b] :: ·)
  | _ => none

/-- The units of four bytes each. -/
def units32? (order : ByteOrder) : List UInt8 → Option (List Nat)
  | [] => some []
  | a :: b :: c :: d :: rest =>
    (units32? order rest).map (unitValue order [a, b, c, d] :: ·)
  | _ => none

/-- The codes of the characters and of the lone halves in bytes, in the encoding they are in. -/
def codes? (bytes : List UInt8) : Option (List Nat) :=
  match detect bytes with
  | (.utf8, rest) => (Utf8.wideCodes rest).toOption
  | (.utf16 order, rest) => (units16? order rest).map joinPairs
  | (.utf32 order, rest) => (units32? order rest).filter (·.all (· < 0x110000))

end Encoding

end PageCompiler.Text
