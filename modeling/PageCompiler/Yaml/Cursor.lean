/-!
# `PageCompiler.Yaml.Cursor`: places in a file

Layout carries meaning in a file, so a reader has to know where it is: in which line, and in which
column. A byte order mark takes no column.
-/

set_option autoImplicit false

namespace PageCompiler.Yaml

/-- Characters that end a line. -/
def isBreak (c : Char) : Bool :=
  let n := c.toNat
  n == 10 || n == 13 || n == 0x85 || n == 0x2028 || n == 0x2029

/-- Blanks and line breaks. -/
def isSpace (c : Char) : Bool :=
  c == ' ' || c == '\t' || isBreak c

/-- A text that has ended or starts with a blank or a line break. -/
def atSpace : List Char → Bool
  | [] => true
  | c :: _ => isSpace c

/-- What a line break stands for: itself if it is one of the two Unicode separators, and a line feed
otherwise. -/
def breakChar (c : Char) : Char :=
  if c.toNat == 0x2028 || c.toNat == 0x2029 then c else '\n'

/-- What line breaks between two words stand for. The first one is a blank if it is alone, and
nothing if more follow. One of the two Unicode separators stays. -/
def foldBreaks (first : Char) (more : List Char) : List Char :=
  if breakChar first != '\n' then breakChar first :: more
  else if more.isEmpty then [' ']
  else more

/-- The mark of the start or the end of a document. -/
def atMark : List Char → Bool
  | '-' :: '-' :: '-' :: rest => atSpace rest
  | '.' :: '.' :: '.' :: rest => atSpace rest
  | _ => false

/-- A place in a file: what is still to be read, and where that is. -/
structure Cursor where
  rest : List Char
  index : Nat
  line : Nat
  column : Nat
  deriving DecidableEq, Repr

namespace Cursor

/-- The start of a text. -/
def ofText (s : List Char) : Cursor :=
  { rest := s, index := 0, line := 0, column := 0 }

/-- The mark that some files start with. -/
def byteOrderMark : Char := Char.ofNat 0xfeff

/-- The place behind the next character. -/
def next (c : Cursor) : Cursor :=
  match c.rest with
  | [] => c
  | ch :: rest =>
    if isBreak ch then { rest, index := c.index + 1, line := c.line + 1, column := 0 }
    else
      { rest, index := c.index + 1, line := c.line,
        column := if ch == byteOrderMark then c.column else c.column + 1 }

/-- The place some characters further on. -/
def skip (c : Cursor) : Nat → Cursor
  | 0 => c
  | n + 1 => c.next.skip n

theorem rest_next (c : Cursor) : c.next.rest = c.rest.tail := by
  unfold next
  split
  · next h => simp [h]
  · next h => split <;> simp [h]

theorem rest_skip (c : Cursor) (n : Nat) : (c.skip n).rest = c.rest.drop n := by
  induction n generalizing c with
  | zero => rfl
  | succ n ih => rw [skip, ih, rest_next, List.drop_tail]

end Cursor

end PageCompiler.Yaml
