import PageCompiler.Address.CompositionTable
import PageCompiler.Text.Word

/-!
# `PageCompiler.Address.Composition`: letters with marks

A letter with a mark can often be written in two ways: as one character, or as the letter and the
mark. A text is composed if it has the fewest characters of all ways, with marks that do not touch
each other in a fixed order. `compose` gives the composed form of a text. The syllables of Hangul
are composed of their letters by a rule, all other characters by a table.
-/

set_option autoImplicit false

namespace PageCompiler.Address

open Text

/-- The number of the place where a mark stands. Other characters have the number zero. -/
def place (c : Char) : Nat :=
  ((placeRuns.find? fun r => inRuns r.2 c.toNat).map Prod.fst).getD 0

/-- The parts of a syllable of Hangul: a consonant and a vowel, or a syllable and its closing
consonant. -/
def syllableParts? (n : Nat) : Option (Nat × Nat) :=
  if 0xac00 ≤ n && n ≤ 0xd7a3 then
    let k := n - 0xac00
    if k % 28 == 0 then some (0x1100 + k / 588, 0x1161 + k % 588 / 28)
    else some (n - k % 28, 0x11a7 + k % 28)
  else none

/-- The syllable of Hangul of two parts. -/
def syllable? (a b : Nat) : Option Nat :=
  if 0x1100 ≤ a && a ≤ 0x1112 && 0x1161 ≤ b && b ≤ 0x1175 then
    some (0xac00 + (a - 0x1100) * 588 + (b - 0x1161) * 28)
  else if 0xac00 ≤ a && a ≤ 0xd7a3 && (a - 0xac00) % 28 == 0 && 0x11a8 ≤ b && b ≤ 0x11c2 then
    some (a + (b - 0x11a7))
  else none

/-- The letter and the mark of a composed character. -/
def parts? (c : Char) : Option (Char × Char) :=
  ((syllableParts? c.toNat).or
    ((composedPairs.find? fun p => p.1 == c.toNat).map fun p => p.2)).map fun (a, b) =>
      (Char.ofNat a, Char.ofNat b)

/-- The composed character of a letter and a mark. -/
def pair? (letter mark : Char) : Option Char :=
  ((syllable? letter.toNat mark.toNat).or
    ((composedPairs.find? fun p => p.2.1 == letter.toNat && p.2.2 == mark.toNat).map fun p =>
      p.1)).map Char.ofNat

/-- A character as its letter and its marks, taken apart up to `depth` times. -/
def takeApart : (depth : Nat) → Char → List Char
  | 0, c => [c]
  | depth + 1, c =>
    match parts? c with
    | some (letter, mark) => takeApart depth letter ++ [mark]
    | none => [c]

/-- Puts a mark in front of the marks at its left that stand at later places. `done` is the text
before it, the last character first. -/
def settle (c : Char) : (done : List Char) → List Char
  | [] => [c]
  | d :: rest =>
    if place c != 0 && place c < place d then d :: settle c rest else c :: d :: rest

/-- The text with the marks of each letter in order of their places. -/
def inOrder (s : List Char) : List Char :=
  (s.foldl (fun done c => settle c done) []).reverse

/-- What has been composed: the last letter, and the marks behind it that do not join it. The text
before the letter and the marks stand with their last character first. -/
structure Composing where
  before : List Char
  letter : Option Char
  marks : List Char
  deriving DecidableEq, Repr

/-- The text so far, the last character first. -/
def Composing.text (s : Composing) : List Char :=
  s.marks ++ s.letter.toList ++ s.before

/-- A mark can reach the letter over the marks between them. -/
def Composing.reaches (s : Composing) (c : Char) : Bool :=
  match s.marks with
  | [] => true
  | m :: _ => place m < place c

/-- Takes in one more character: it joins the letter, or starts anew, or stays a mark. -/
def Composing.step (s : Composing) (c : Char) : Composing :=
  match s.letter.bind fun letter => if s.reaches c then pair? letter c else none with
  | some joined => { s with letter := some joined }
  | none =>
    if place c == 0 then { before := s.text, letter := some c, marks := [] }
    else { s with marks := c :: s.marks }

/-- The composed form of a text. No character is made of more than four. -/
def compose (s : List Char) : List Char :=
  ((inOrder (s.flatMap (takeApart 3))).foldl Composing.step
    { before := [], letter := none, marks := [] }).text.reverse

/-- A text in composed form. -/
def isComposed (s : List Char) : Bool :=
  !s.any (fun c => inRuns uncomposedRuns c.toNat) && compose s == s

end PageCompiler.Address
