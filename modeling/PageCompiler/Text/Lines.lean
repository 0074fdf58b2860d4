/-!
# `PageCompiler.Text.Lines`: lines of a text

A line ends at a line feed, a carriage return, the pair of both, a vertical tab, a form feed, the
three information separators, the next-line character, or one of the two Unicode separators.
A text that ends in a line break has no empty line after it.
-/

set_option autoImplicit false

namespace PageCompiler.Text

/-- Characters that end a line on their own. -/
def isLineBreak (c : Char) : Bool :=
  let n := c.toNat
  (10 ≤ n && n ≤ 13) || (0x1c ≤ n && n ≤ 0x1e) || n == 0x85 || n == 0x2028 || n == 0x2029

/-- Puts a character in front of the first line. -/
def consLine (c : Char) : List (List Char) → List (List Char)
  | [] => [[c]]
  | line :: rest => (c :: line) :: rest

/-- The lines of a text, without their line breaks. -/
def lines : List Char → List (List Char)
  | [] => []
  | '\r' :: '\n' :: rest => [] :: lines rest
  | c :: rest => if isLineBreak c then [] :: lines rest else consLine c (lines rest)

/-- Pieces joined by a separator. -/
def join (sep : List Char) : List (List Char) → List Char
  | [] => []
  | [piece] => piece
  | piece :: rest => piece ++ sep ++ join sep rest

/-- The lines of a string. -/
def linesOf (s : String) : List String :=
  (lines s.toList).map String.ofList

/-- Lines put back together with line feeds. -/
def unlines (ls : List String) : String :=
  "\n".intercalate ls

/-- The number of line feeds in a text. -/
def countFeeds (s : List Char) : Nat :=
  s.count '\n'

/-- A text in which each line ends with a line feed alone. -/
def plainLines : List Char → List Char
  | [] => []
  | '\r' :: '\n' :: rest => '\n' :: plainLines rest
  | '\r' :: rest => '\n' :: plainLines rest
  | c :: rest => c :: plainLines rest

end PageCompiler.Text
