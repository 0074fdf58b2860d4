import PageCompiler.Text.Digit
import PageCompiler.Text.Surrogate
import PageCompiler.Yaml.Basic
import PageCompiler.Yaml.Cursor

/-!
# `PageCompiler.Yaml.Quoted`: scalars in quotes

Between single quotes two quotes stand for one and nothing else is special. Between double quotes a
backslash starts an escape. A scalar may go on over several lines. Blanks around a line break do
not count, a single line break is a blank, and each further one is a line feed.
-/

set_option autoImplicit false

namespace PageCompiler.Yaml

open Text

namespace Quoted

/-- Blanks within a line. -/
def isInline (c : Char) : Bool :=
  c == ' ' || c == '\t'

/-- What is left of `s`. -/
abbrev Rest (s : List Char) := { r : List Char // r.length ≤ s.length }

theorem length_lt_of_dropWhile {p : Char → Bool} {s rest : List Char} {c : Char}
    (h : s.dropWhile p = c :: rest) : rest.length < s.length := by
  have hs : (s.dropWhile p).length ≤ s.length := (List.dropWhile_suffix p).length_le
  rw [h, List.length_cons] at hs
  omega

/-- The line breaks at a line's start, with the blanks before them, and what follows the blanks
after them. The mark of a document cannot stand in a scalar. -/
def breaks (s : List Char) : Except YamlError (List Char × Rest s) :=
  if atMark s then .error .malformed
  else
    match h : s.dropWhile isInline with
    | [] => .ok ([], ⟨[], Nat.zero_le _⟩)
    | c :: rest =>
      if isBreak c then
        match breaks rest with
        | .error e => .error e
        | .ok (more, ⟨r, hr⟩) =>
          .ok (breakChar c :: more,
            ⟨r, Nat.le_trans hr (Nat.le_of_lt (length_lt_of_dropWhile h))⟩)
      else .ok ([], ⟨c :: rest, length_lt_of_dropWhile h⟩)
termination_by s.length
decreasing_by exact length_lt_of_dropWhile h

/-- The character that a letter behind a backslash stands for. -/
def escaped? (c : Char) : Option Char :=
  match c with
  | '0' => some (Char.ofNat 0)
  | 'a' => some (Char.ofNat 7)
  | 'b' => some (Char.ofNat 8)
  | 't' | '\t' => some '\t'
  | 'n' => some '\n'
  | 'v' => some (Char.ofNat 11)
  | 'f' => some (Char.ofNat 12)
  | 'r' => some '\r'
  | 'e' => some (Char.ofNat 27)
  | ' ' => some ' '
  | '"' => some '"'
  | '\\' => some '\\'
  | '/' => some '/'
  | 'N' => some (Char.ofNat 0x85)
  | '_' => some (Char.ofNat 0xa0)
  | 'L' => some (Char.ofNat 0x2028)
  | 'P' => some (Char.ofNat 0x2029)
  | _ => none

/-- The number of digits of a code, by the letter behind the backslash. -/
def codeWidth? (c : Char) : Option Nat :=
  match c with
  | 'x' => some 2
  | 'u' => some 4
  | 'U' => some 8
  | _ => none

/-- The character of a code of `width` digits at the start of a text. -/
def code (standIns : StandIns) (width : Nat) (s : List Char) : Except YamlError Char :=
  match codeAt? width s with
  | none => .error .malformed
  | some n => if n < 0x110000 then .ok (standIns.char n) else .error (.scalar (.code n))

/-- What an escape stands for. The text starts behind the backslash. -/
def escape (standIns : StandIns) (s : List Char) : Except YamlError (List Char × Rest s) :=
  match s with
  | [] => .error .malformed
  | c :: rest =>
    match escaped? c, codeWidth? c with
    | some d, _ => .ok ([d], ⟨rest, Nat.le_succ _⟩)
    | none, some width =>
      match code standIns width rest with
      | .error e => .error e
      | .ok d => .ok ([d], ⟨rest.drop width, by rw [List.length_drop, List.length_cons]; omega⟩)
    | none, none =>
      if isBreak c then
        match breaks rest with
        | .error e => .error e
        | .ok (more, ⟨r, hr⟩) => .ok (more, ⟨r, Nat.le_succ_of_le hr⟩)
      else .error .malformed

/-- Reads a scalar up to its closing quote. The opening quote has been taken off. `done` holds what
has been read, last character first. The answer is the scalar and what follows it. -/
def read (standIns : StandIns) (double : Bool) (done : List Char) (s : List Char) :
    Except YamlError (List Char × List Char) :=
  match s with
  | [] => .error .malformed
  | c :: rest =>
    if c == '\x27' && !double then
      match rest with
      | '\x27' :: rest => read standIns double ('\x27' :: done) rest
      | rest => .ok (done.reverse, rest)
    else if c == '"' && double then .ok (done.reverse, rest)
    else if c == '\\' && double then
      match escape standIns rest with
      | .error e => .error e
      | .ok (cs, ⟨r, _⟩) => read standIns double (cs.reverse ++ done) r
    else if isInline c then
      have := (List.dropWhile_suffix (l := rest) isInline).length_le
      match _ : rest.dropWhile isInline with
      | [] => .error .malformed
      | d :: after =>
        if isBreak d then
          match breaks after with
          | .error e => .error e
          | .ok (more, ⟨r, _⟩) => read standIns double ((foldBreaks d more).reverse ++ done) r
        else
          read standIns double ((rest.takeWhile isInline).reverse ++ c :: done) (d :: after)
    else if isBreak c then
      match breaks rest with
      | .error e => .error e
      | .ok (more, ⟨r, _⟩) => read standIns double ((foldBreaks c more).reverse ++ done) r
    else read standIns double (c :: done) rest
termination_by s.length
decreasing_by
  all_goals simp_all
  all_goals omega

end Quoted

end PageCompiler.Yaml
