import PageCompiler.Decimal.Literal
import PageCompiler.Text.Encoding
import PageCompiler.Text.Word
import PageCompiler.Value

/-!
# `PageCompiler.Json.Reader`: values from JSON text

`read?` reads a whole text as one JSON value. Besides the standard it takes the names of infinite
numbers and of no number. A repeated key takes its last value. Integers have at most as many digits
as everywhere in the library. A text of the value may hold halves of characters, so the readers are
given the characters that stand for them.

Every reader takes the unread text and gives back a shorter rest, as the readers of blocks do.
-/

set_option autoImplicit false

namespace PageCompiler.Json

open Text

/-- What a reader leaves of `s`: a shorter text. -/
abbrev Shorter (s : List Char) := { r : List Char // r.length < s.length }

/-- White space between tokens. -/
def isSpace (c : Char) : Bool :=
  c == ' ' || c == '\t' || c == '\n' || c == '\r'

/-- The text without white space at its start. -/
def skipSpace (s : List Char) : List Char :=
  s.dropWhile isSpace

theorem length_skipSpace_le (s : List Char) : (skipSpace s).length ≤ s.length :=
  (List.dropWhile_suffix isSpace).length_le

/-- The value of four hexadecimal digits. -/
def hex4? (a b c d : Char) : Option Nat := do
  let w ← hexValue? a
  let x ← hexValue? b
  let y ← hexValue? c
  let z ← hexValue? d
  return ((w * 16 + x) * 16 + y) * 16 + z

/-- The character of a short escape sequence. -/
def shortEscape? (c : Char) : Option Char :=
  if c == '"' || c == '\\' || c == '/' then some c
  else if c == 'n' then some '\n'
  else if c == 't' then some '\t'
  else if c == 'r' then some '\r'
  else if c == 'b' then some (Char.ofNat 8)
  else if c == 'f' then some (Char.ofNat 12)
  else none

/-- The UTF-16 units of a string up to its closing quote, and what follows the quote. Characters
that are not escaped stand for themselves, so each unit is a character or an escaped number. -/
def scanString : List Char → Option (List (Char ⊕ Nat) × List Char)
  | [] => none
  | '"' :: rest => some ([], rest)
  | '\\' :: 'u' :: a :: b :: c :: d :: rest =>
    (hex4? a b c d).bind fun n => (scanString rest).map fun (us, r) => (.inr n :: us, r)
  | '\\' :: c :: rest =>
    (shortEscape? c).bind fun e => (scanString rest).map fun (us, r) => (.inl e :: us, r)
  | c :: rest =>
    if c == '\\' || c.toNat < 0x20 then none
    else (scanString rest).map fun (us, r) => (.inl c :: us, r)

/-- The characters of string units. Two escaped halves of a pair make one character. -/
def joinUnits (standIns : StandIns) : List (Char ⊕ Nat) → List Char
  | [] => []
  | .inl c :: rest => c :: joinUnits standIns rest
  | .inr a :: .inr b :: rest =>
    if isHighHalf a && isLowHalf b then
      Char.ofNat (joinHalves a b) :: joinUnits standIns rest
    else standIns.char a :: joinUnits standIns (.inr b :: rest)
  | .inr a :: rest => standIns.char a :: joinUnits standIns rest

theorem length_scanString {s r : List Char} {us : List (Char ⊕ Nat)}
    (h : scanString s = some (us, r)) : r.length < s.length := by
  fun_induction scanString s generalizing us with
  | case1 => simp at h
  | case2 rest => simp_all
  | case3 a b c d rest ih =>
    obtain ⟨n, _, h⟩ := Option.bind_eq_some_iff.1 h
    obtain ⟨⟨v, t⟩, hs, he⟩ := Option.map_eq_some_iff.1 h
    simp only [Prod.mk.injEq] at he
    have := ih (he.2 ▸ hs)
    simp only [List.length_cons]
    omega
  | case4 c rest _ ih =>
    obtain ⟨e, _, h⟩ := Option.bind_eq_some_iff.1 h
    obtain ⟨⟨v, t⟩, hs, he⟩ := Option.map_eq_some_iff.1 h
    simp only [Prod.mk.injEq] at he
    have := ih (he.2 ▸ hs)
    simp only [List.length_cons]
    omega
  | case5 => simp at h
  | case6 c rest _ _ _ _ ih =>
    obtain ⟨⟨v, t⟩, hs, he⟩ := Option.map_eq_some_iff.1 h
    simp only [Prod.mk.injEq] at he
    have := ih (he.2 ▸ hs)
    simp only [List.length_cons]
    omega

/-- Reads a string whose opening quote has been taken off. -/
def readString (standIns : StandIns) (s : List Char) : Option (String × Shorter s) :=
  match h : scanString s with
  | some (us, r) => some (String.ofList (joinUnits standIns us), ⟨r, length_scanString h⟩)
  | none => none

/-- The whole part of a number: a zero, or digits that do not start with one. -/
def takeWhole (s : List Char) : List Char :=
  match s with
  | '0' :: _ => ['0']
  | _ => s.takeWhile isAsciiDigit

/-- The fraction of a number, with its point, if one stands here. -/
def takeFraction (s : List Char) : List Char :=
  match s with
  | '.' :: rest =>
    let ds := rest.takeWhile isAsciiDigit
    if ds.isEmpty then [] else '.' :: ds
  | _ => []

/-- The exponent of a number, with its letter, if one stands here. -/
def takeExponent (s : List Char) : List Char :=
  match s with
  | c :: rest =>
    if c == 'e' || c == 'E' then
      let sign := (rest.take 1).filter fun c => c == '+' || c == '-'
      let ds := (rest.drop sign.length).takeWhile isAsciiDigit
      if ds.isEmpty then [] else c :: sign ++ ds
    else []
  | [] => []

/-- The text of a number at the start of a text. -/
def takeNumber (s : List Char) : List Char :=
  let sign := (s.take 1).filter (· == '-')
  let whole := takeWhole (s.drop sign.length)
  if whole.isEmpty then []
  else
    let used := sign ++ whole
    let fraction := takeFraction (s.drop used.length)
    let exponent := takeExponent (s.drop (used.length + fraction.length))
    used ++ fraction ++ exponent

/-- The value of the text of a number. -/
def numberValue? (token : List Char) : Option Value := do
  let l ← Decimal.Literal.parse? token
  if l.isInteger then
    if l.whole.length ≤ Decimal.maxIntegerDigits then return .int l.toInt else none
  else return .float l.toFloat

/-- Words that stand for values. -/
def words : List (String × Value) :=
  [("null", .null), ("true", .bool true), ("false", .bool false), ("NaN", .float (0.0 / 0.0)),
   ("Infinity", .float (1.0 / 0.0)), ("-Infinity", .float (-(1.0 / 0.0)))]

/-- Reads a word or a number. -/
def readAtom (s : List Char) : Option (Value × Shorter s) :=
  match words.find? fun (word, _) => word.toList.isPrefixOf s with
  | some (word, v) =>
    if h : (s.drop word.toList.length).length < s.length then
      some (v, ⟨s.drop word.toList.length, h⟩)
    else none
  | none =>
    let token := takeNumber s
    if h : (s.drop token.length).length < s.length then
      (numberValue? token).map fun v => (v, ⟨s.drop token.length, h⟩)
    else none

mutual

/-- Reads one value. White space may stand in front of it. -/
def readValue (standIns : StandIns) (s : List Char) : Option (Value × Shorter s) :=
  have hs := length_skipSpace_le s
  match h : skipSpace s with
  | [] => none
  | c :: rest =>
    if c == '"' then
      match readString standIns rest with
      | some (t, ⟨r, hr⟩) => some (.text t, ⟨r, by simp [h] at hs; omega⟩)
      | none => none
    else if c == '\x7b' then
      match hb : skipSpace rest with
      | '\x7d' :: r =>
        some (.map [], ⟨r, by
          have := length_skipSpace_le rest
          simp [h] at hs; simp [hb] at this; omega⟩)
      | _ =>
        match readMembers standIns [] rest with
        | some (fields, ⟨r, hr⟩) => some (.map fields, ⟨r, by simp [h] at hs; omega⟩)
        | none => none
    else if c == '[' then
      match hb : skipSpace rest with
      | ']' :: r =>
        some (.list [], ⟨r, by
          have := length_skipSpace_le rest
          simp [h] at hs; simp [hb] at this; omega⟩)
      | _ =>
        match readItems standIns [] rest with
        | some (items, ⟨r, hr⟩) => some (.list items, ⟨r, by simp [h] at hs; omega⟩)
        | none => none
    else
      match readAtom (c :: rest) with
      | some (v, ⟨r, hr⟩) => some (v, ⟨r, by simp [h] at hs hr; omega⟩)
      | none => none
termination_by 2 * s.length
decreasing_by
  all_goals simp [h] at hs; omega

/-- Reads members up to the closing brace of their object. `done` holds the members read so
far. -/
def readMembers (standIns : StandIns) (done : Fields) (s : List Char) :
    Option (Fields × Shorter s) :=
  have hs := length_skipSpace_le s
  match h : skipSpace s with
  | '"' :: rest =>
    match readString standIns rest with
    | none => none
    | some (key, ⟨r, hr⟩) =>
      have hc := length_skipSpace_le r
      match hk : skipSpace r with
      | ':' :: t =>
        match readValue standIns t with
        | none => none
        | some (v, ⟨u, hu⟩) =>
          have hd := length_skipSpace_le u
          match hv : skipSpace u with
          | '\x7d' :: w =>
            some (Assoc.insert done key v,
              ⟨w, by simp [h] at hs; simp [hk] at hc; simp [hv] at hd; omega⟩)
          | ',' :: w =>
            match readMembers standIns (Assoc.insert done key v) w with
            | some (fields, ⟨x, hx⟩) =>
              some (fields,
                ⟨x, by simp [h] at hs; simp [hk] at hc; simp [hv] at hd; omega⟩)
            | none => none
          | _ => none
      | _ => none
  | _ => none
termination_by 2 * s.length + 1
decreasing_by
  · simp [h] at hs; simp [hk] at hc; omega
  · simp [h] at hs; simp [hk] at hc; simp [hv] at hd; omega

/-- Reads items up to the closing bracket of their array. `done` holds the items read so far, the
last first. -/
def readItems (standIns : StandIns) (done : List Value) (s : List Char) :
    Option (List Value × Shorter s) :=
  match readValue standIns s with
  | none => none
  | some (v, ⟨r, hr⟩) =>
    have hd := length_skipSpace_le r
    match hv : skipSpace r with
    | ']' :: w => some ((v :: done).reverse, ⟨w, by simp [hv] at hd; omega⟩)
    | ',' :: w =>
      match readItems standIns (v :: done) w with
      | some (items, ⟨x, hx⟩) => some (items, ⟨x, by simp [hv] at hd; omega⟩)
      | none => none
    | _ => none
termination_by 2 * s.length + 1
decreasing_by
  · omega
  · simp [hv] at hd; omega

end

/-- Reads a text that is one value from end to end. -/
def read? (standIns : StandIns) (s : List Char) : Option Value :=
  match readValue standIns s with
  | some (v, ⟨r, _⟩) => if (skipSpace r).isEmpty then some v else none
  | none => none

/-- A value that was read, and the characters that stand for halves in its texts. -/
structure Reading where
  value : Value
  standIns : StandIns
  deriving Repr

/-- Characters for the halves in bytes: neither the bytes hold them nor `context`, the texts that
come together with those of the bytes. -/
def standInsFor (context : List Char) (bytes : List UInt8) : StandIns :=
  StandIns.ofText (((Encoding.codes? bytes).getD []).map Char.ofNat ++ context)

/-- Reads bytes that are one value from end to end, in whichever encoding they are. -/
def readWith? (standIns : StandIns) (bytes : List UInt8) : Option Value := do
  let codes ← Encoding.codes? bytes
  read? standIns (codes.map standIns.char)

/-- Reads bytes as one value, with characters of its own for halves. -/
def readBytes? (context : List Char) (bytes : List UInt8) : Option Reading :=
  let standIns := standInsFor context bytes
  (readWith? standIns bytes).map fun value => { value, standIns }

end PageCompiler.Json
