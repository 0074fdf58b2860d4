import PageCompiler.Text.Surrogate

/-!
# `PageCompiler.Text.Utf8`: bytes as text

`decode` reads bytes as UTF-8. The first byte of a character says how many bytes follow it, and
which values the second may have. Bytes that are not UTF-8 are refused with the place where the
trouble starts and the bytes that belong to it. `wideCodes` also takes the bytes of halves of
characters, and so gives codes instead of characters.
-/

set_option autoImplicit false

namespace PageCompiler.Text.Utf8

/-- What is wrong with bytes that are not UTF-8. -/
inductive Fault where
  /-- No character starts with this byte. -/
  | badStart
  /-- A character is not continued. -/
  | badContinuation
  /-- The bytes end within a character. -/
  | truncated
  deriving DecidableEq, Repr

/-- Where bytes are not UTF-8. -/
structure DecodeError where
  fault : Fault
  /-- The position of the first byte at fault. -/
  start : Nat
  /-- The number of bytes at fault. -/
  width : Nat
  /-- The first byte at fault. -/
  byte : UInt8
  deriving DecidableEq, Repr

/-- The name of a fault. -/
def Fault.text : Fault → String
  | .badStart => "invalid start byte"
  | .badContinuation => "invalid continuation byte"
  | .truncated => "unexpected end of data"

/-- A byte as two hexadecimal digits. -/
def hexByte (b : UInt8) : String :=
  String.ofList [Nat.digitChar (b.toNat / 16), Nat.digitChar (b.toNat % 16)]

/-- What is said about bytes that are not UTF-8. -/
def DecodeError.message (e : DecodeError) : String :=
  let place :=
    if e.width == 1 then "byte 0x" ++ hexByte e.byte ++ " in position " ++ toString e.start
    else "bytes in position " ++ toString e.start ++ "-" ++ toString (e.start + e.width - 1)
  "'utf-8' codec can't decode " ++ place ++ ": " ++ e.fault.text

/-- How many bytes follow a first byte, and the least and the greatest value of the second. `wide`
lets the bytes of halves of characters pass. -/
def tail? (wide : Bool) (b : UInt8) : Option (Nat × UInt8 × UInt8) :=
  if b < 0x80 then some (0, 0x80, 0xbf)
  else if b < 0xc2 then none
  else if b < 0xe0 then some (1, 0x80, 0xbf)
  else if b == 0xe0 then some (2, 0xa0, 0xbf)
  else if b == 0xed then some (2, 0x80, if wide then 0xbf else 0x9f)
  else if b < 0xf0 then some (2, 0x80, 0xbf)
  else if b == 0xf0 then some (3, 0x90, 0xbf)
  else if b < 0xf4 then some (3, 0x80, 0xbf)
  else if b == 0xf4 then some (3, 0x80, 0x8f)
  else none

/-- The bits of a first byte that belong to the character, if `n` bytes follow. -/
def payload (n : Nat) (b : UInt8) : Nat :=
  match n with
  | 0 => b.toNat
  | 1 => b.toNat % 32
  | 2 => b.toNat % 16
  | _ => b.toNat % 8

/-- A character that is not read to its end. -/
structure Pending where
  /-- The first byte of the character. -/
  first : UInt8
  /-- Where the character starts. -/
  start : Nat
  /-- The number of its bytes read so far. -/
  seen : Nat
  /-- The number of bytes that are missing. -/
  missing : Nat
  /-- The least value of the next byte. -/
  low : UInt8
  /-- The greatest value of the next byte. -/
  high : UInt8
  /-- The bits read so far. -/
  bits : Nat
  deriving DecidableEq, Repr

/-- The codes of the characters in bytes from a position on. -/
def codesFrom (wide : Bool) (pos : Nat) (pending : Option Pending) :
    List UInt8 → Except DecodeError (List Nat)
  | [] =>
    match pending with
    | none => .ok []
    | some p => .error { fault := .truncated, start := p.start, width := p.seen, byte := p.first }
  | b :: rest =>
    match pending with
    | none =>
      match tail? wide b with
      | none => .error { fault := .badStart, start := pos, width := 1, byte := b }
      | some (0, _, _) => (codesFrom wide (pos + 1) none rest).map (b.toNat :: ·)
      | some (n + 1, low, high) =>
        codesFrom wide (pos + 1)
          (some { first := b, start := pos, seen := 1, missing := n + 1, low, high,
                  bits := payload (n + 1) b }) rest
    | some p =>
      if p.low ≤ b && b ≤ p.high then
        let bits := p.bits * 64 + b.toNat % 64
        if p.missing ≤ 1 then (codesFrom wide (pos + 1) none rest).map (bits :: ·)
        else
          codesFrom wide (pos + 1)
            (some { p with seen := p.seen + 1, missing := p.missing - 1, low := 0x80,
                           high := 0xbf, bits }) rest
      else .error { fault := .badContinuation, start := p.start, width := p.seen, byte := p.first }

/-- Reads bytes as UTF-8. -/
def decode (bytes : List UInt8) : Except DecodeError (List Char) :=
  (codesFrom false 0 none bytes).map (·.map Char.ofNat)

/-- The codes of the characters, or of the halves of characters, in bytes of UTF-8. -/
def wideCodes (bytes : List UInt8) : Except DecodeError (List Nat) :=
  codesFrom true 0 none bytes

/-- The characters read so far, the last first, and the character that is not read to its end. -/
structure Lossy where
  chars : List Char
  pending : Option Pending
  deriving DecidableEq, Repr

/-- The character that takes the place of bytes at fault. -/
def replacement : Char := Char.ofNat 0xfffd

/-- Reads the first byte of a character. A byte that starts none is replaced. -/
def Lossy.start (l : Lossy) (b : UInt8) : Lossy :=
  match tail? false b with
  | none => { chars := replacement :: l.chars, pending := none }
  | some (0, _, _) => { chars := Char.ofNat b.toNat :: l.chars, pending := none }
  | some (n + 1, low, high) =>
    { l with pending := some { first := b, start := 0, seen := 1, missing := n + 1, low, high,
                               bits := payload (n + 1) b } }

/-- Reads one more byte. A character that it does not continue is replaced. -/
def Lossy.step (l : Lossy) (b : UInt8) : Lossy :=
  match l.pending with
  | none => l.start b
  | some p =>
    if p.low ≤ b && b ≤ p.high then
      let bits := p.bits * 64 + b.toNat % 64
      if p.missing ≤ 1 then { chars := Char.ofNat bits :: l.chars, pending := none }
      else
        { l with pending := some { p with seen := p.seen + 1, missing := p.missing - 1,
                                          low := 0x80, high := 0xbf, bits } }
    else Lossy.start { chars := replacement :: l.chars, pending := none } b

/-- Reads bytes as UTF-8. Bytes at fault are replaced. -/
def decodeLossy (bytes : List UInt8) : List Char :=
  let l := bytes.foldl Lossy.step { chars := [], pending := none }
  match l.pending with
  | none => l.chars.reverse
  | some _ => (replacement :: l.chars).reverse

/-- A text as UTF-8. -/
def encode (s : String) : List UInt8 :=
  s.toUTF8.toList

end PageCompiler.Text.Utf8
