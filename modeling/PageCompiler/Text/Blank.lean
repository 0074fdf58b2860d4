/-!
# `PageCompiler.Text.Blank`: white space

White space is decided by Unicode: the ASCII blanks and separators, the next-line and no-break
characters, and the spaces of the general and ideographic blocks. A zero-width space and a byte
order mark are no white space.

* `trim` drops the white space at both ends of a text.
* `fields` cuts a text at its runs of white space.
-/

set_option autoImplicit false

namespace PageCompiler.Text

/-- White space. -/
def isBlank (c : Char) : Bool :=
  let n := c.toNat
  (9 ≤ n && n ≤ 13) || (0x1c ≤ n && n ≤ 0x20) || n == 0x85 || n == 0xa0 || n == 0x1680 ||
    (0x2000 ≤ n && n ≤ 0x200a) || n == 0x2028 || n == 0x2029 || n == 0x202f || n == 0x205f ||
    n == 0x3000

/-- A text without the characters at its end that satisfy `p`. -/
def dropRightWhile (p : Char → Bool) (s : List Char) : List Char :=
  (s.reverse.dropWhile p).reverse

/-- A text without the white space at its start. -/
def trimLeft (s : List Char) : List Char :=
  s.dropWhile isBlank

/-- A text without the white space at its end. -/
def trimRight (s : List Char) : List Char :=
  dropRightWhile isBlank s

/-- A text without the white space at its ends. -/
def trim (s : List Char) : List Char :=
  trimRight (trimLeft s)

/-- A text of white space only. -/
def allBlank (s : List Char) : Bool :=
  s.all isBlank

/-- The maximal runs without white space, in order. `current` holds the run being read, in
reverse. -/
def fieldsFrom (current : List Char) : List Char → List (List Char)
  | [] => if current.isEmpty then [] else [current.reverse]
  | c :: rest =>
    if isBlank c then
      if current.isEmpty then fieldsFrom [] rest else current.reverse :: fieldsFrom [] rest
    else fieldsFrom (c :: current) rest

/-- The maximal runs without white space, in order. -/
def fields (s : List Char) : List (List Char) :=
  fieldsFrom [] s

/-- `trim` on strings. -/
def trimmed (s : String) : String :=
  String.ofList (trim s.toList)

end PageCompiler.Text
