import PageCompiler.Text.Word

/-!
# `PageCompiler.Address.Punycode`: any text in letters, digits and hyphens

The ASCII characters of a text come first. Behind a hyphen follows where the other characters stand,
from the smallest to the largest: for each the number of steps from the one before, counted over
all characters and all positions. A number is written in digits of a mixed base that adapts to the
numbers before it, so that small steps take few digits.

`encode` writes a text this way and `decode?` reads it. Both know a text by the codes of its
characters, since the codes that are read may be no characters.
-/

set_option autoImplicit false

namespace PageCompiler.Address.Punycode

open Text

/-- The character of a digit below 36. -/
def digitChar (d : Nat) : Char :=
  if d < 26 then Char.ofNat ('a'.toNat + d) else Char.ofNat ('0'.toNat + (d - 26))

/-- The digit of a character in lower case. -/
def digitValue? (c : Char) : Option Nat :=
  if 'a' ≤ c && c ≤ 'z' then some (c.toNat - 'a'.toNat)
  else if '0' ≤ c && c ≤ '9' then some (26 + (c.toNat - '0'.toNat))
  else none

/-- Digits below the threshold end a number. It depends on the place of the digit, counted in steps
of 36 from 36 on, and on the bias. -/
def threshold (place bias : Nat) : Nat :=
  min 26 (max 1 (place - bias))

theorem threshold_pos (place bias : Nat) : 1 ≤ threshold place bias := by
  unfold threshold; omega

/-- Divides by 35 until 455 is not exceeded. Each division adds 36 to `sum`. -/
def shrink (delta sum : Nat) : Nat × Nat :=
  if 455 < delta then shrink (delta / 35) (sum + 36) else (delta, sum)
termination_by delta
decreasing_by exact Nat.div_lt_self (by omega) (by omega)

/-- The bias after a number, which was the first or not, in a text of `size` characters. -/
def adapt (delta size : Nat) (first : Bool) : Nat :=
  let scaled := if first then delta / 700 else delta / 2
  let (rest, sum) := shrink (scaled + scaled / size) 0
  sum + 36 * rest / (rest + 38)

/-- A number in digits, the lowest first. -/
def writeNumber (bias place n : Nat) : List Char :=
  let t := threshold place bias
  if n < t then [digitChar n]
  else
    digitChar (t + (n - t) % (36 - t)) :: writeNumber bias (place + 36) ((n - t) / (36 - t))
termination_by n
decreasing_by
  have h₁ := threshold_pos place bias
  have h₂ : (n - threshold place bias) / (36 - threshold place bias) ≤ n - threshold place bias :=
    Nat.div_le_self _ _
  omega

/-- What has been written: digits, the steps since the last number, the bias, and how many
characters of the text are done. -/
structure Writing where
  digits : List Char
  delta : Nat
  bias : Nat
  handled : Nat
  deriving DecidableEq, Repr

/-- Looks at one character of the text while the characters with the code `target` are written. -/
def Writing.look (basic target : Nat) (w : Writing) (code : Nat) : Writing :=
  if code < target then { w with delta := w.delta + 1 }
  else if code == target then
    { digits := w.digits ++ writeNumber w.bias 36 w.delta, delta := 0,
      bias := adapt w.delta (w.handled + 1) (w.handled == basic), handled := w.handled + 1 }
  else w

/-- Writes the characters with the codes in `targets`, which ascend from `least` on. -/
def writeAll (text : List Nat) (basic : Nat) : (targets : List Nat) → (least : Nat) →
    Writing → Writing
  | [], _, w => w
  | target :: rest, least, w =>
    let w := { w with delta := w.delta + (target - least) * (w.handled + 1) }
    let w := text.foldl (Writing.look basic target) w
    writeAll text basic rest (target + 1) { w with delta := w.delta + 1 }

/-- The codes above ASCII in a text, each once, in ascending order. -/
def targets (text : List Nat) : List Nat :=
  (text.filter (128 ≤ ·)).mergeSort.eraseDups

/-- A text in letters, digits and hyphens. -/
def encode (text : List Nat) : List Char :=
  let basic := (text.filter (· < 128)).map Char.ofNat
  let w := writeAll text basic.length (targets text) 128
    { digits := [], delta := 0, bias := 72, handled := basic.length }
  if basic.isEmpty then w.digits else basic ++ '-' :: w.digits

/-- Reads one number, and gives what follows it. `weight` is the value of a one at this place. -/
def readNumber? (bias : Nat) : (place weight sum : Nat) → List Char → Option (Nat × List Char)
  | _, _, _, [] => none
  | place, weight, sum, c :: rest =>
    match digitValue? c with
    | none => none
    | some d =>
      let t := threshold place bias
      if d < t then some (sum + d * weight, rest)
      else readNumber? bias (place + 36) (weight * (36 - t)) (sum + d * weight) rest

theorem length_readNumber? {bias : Nat} {s r : List Char} :
    ∀ {place weight sum n : Nat}, readNumber? bias place weight sum s = some (n, r) →
      r.length < s.length := by
  induction s with
  | nil => intro _ _ _ _ h; simp [readNumber?] at h
  | cons c rest ih =>
    intro place weight sum n h
    simp only [readNumber?] at h
    split at h
    · simp at h
    · split at h
      · simp only [Option.some.injEq, Prod.mk.injEq] at h
        simp [h.2]
      · have := ih h
        simp only [List.length_cons]
        omega

/-- Reads the numbers behind the hyphen and puts each character to its place. `steps` is the
position behind the last character put in. -/
def readAll? (bias code steps : Nat) (first : Bool) (text : List Nat)
    (digits : List Char) : Option (List Nat) :=
  match digits with
  | [] => some text
  | d :: rest =>
    match _ : readNumber? bias 36 1 0 (d :: rest) with
    | none => none
    | some (delta, after) =>
      let size := text.length + 1
      let total := steps + delta
      let code := code + total / size
      let position := total % size
      if code < 0x110000 then
        readAll? (adapt delta size first) code (position + 1) false
          (text.take position ++ code :: text.drop position) after
      else none
termination_by digits.length
decreasing_by exact length_readNumber? (by assumption)

/-- Reads what `encode` writes. -/
def decode? (s : List Char) : Option (List Nat) :=
  let digits := (s.reverse.takeWhile (· != '-')).reverse
  readAll? 72 128 0 true ((s.take (s.length - digits.length - 1)).map Char.toNat) digits

end PageCompiler.Address.Punycode
