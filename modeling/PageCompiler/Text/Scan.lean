import PageCompiler.Text.Blank
import PageCompiler.Text.Search
import PageCompiler.Text.Word

/-!
# `PageCompiler.Text.Scan`: finding what a recogniser accepts

A recogniser looks at one place of a text. It answers what stands there and what follows it.
`pieces` walks through a text from the left and cuts it into what a recogniser accepts and the
characters in between. `findAll` keeps the first, `replaceAll` changes them and keeps the rest.
-/

set_option autoImplicit false

namespace PageCompiler.Text

/-- What stands at the start of a text, and what follows it. The character before the text may
matter. -/
abbrev Recogniser (α : Type) := (before : Option Char) → List Char → Option (α × List Char)

/-- A piece of a text: something a recogniser accepts, or a character in between. -/
inductive Piece (α : Type) where
  | found (a : α)
  | plain (c : Char)
  deriving DecidableEq, Repr

/-- The pieces of a text behind the character `before`, once `skip` characters are passed that
belong to a piece already. -/
def piecesFrom {α : Type} (r : Recogniser α) (before : Option Char) (skip : Nat) :
    List Char → List (Piece α)
  | [] =>
    match r before [] with
    | some (a, _) => [.found a]
    | none => []
  | c :: s =>
    match skip with
    | k + 1 => piecesFrom r (some c) k s
    | 0 =>
      match r before (c :: s) with
      | some (a, rest) =>
        match (c :: s).length - rest.length with
        | 0 => .found a :: .plain c :: piecesFrom r (some c) 0 s
        | k + 1 => .found a :: piecesFrom r (some c) k s
      | none => .plain c :: piecesFrom r (some c) 0 s

/-- The pieces of a text. -/
def pieces {α : Type} (r : Recogniser α) (s : List Char) : List (Piece α) :=
  piecesFrom r none 0 s

/-- What a recogniser accepts in a text, from the left and without overlap. -/
def findAll {α : Type} (r : Recogniser α) (s : List Char) : List α :=
  (pieces r s).filterMap fun
    | .found a => some a
    | .plain _ => none

/-- The first that a recogniser accepts in a text. -/
def find? {α : Type} (r : Recogniser α) (s : List Char) : Option α :=
  (findAll r s).head?

/-- A text with everything that a recogniser accepts replaced. -/
def replaceAll {α : Type} (r : Recogniser α) (f : α → List Char) (s : List Char) : List Char :=
  (pieces r s).flatMap fun
    | .found a => f a
    | .plain c => [c]

/-- At least one character that satisfies `p`, as many as there are, and what follows. -/
def span1? (p : Char → Bool) (s : List Char) : Option (List Char × List Char) :=
  match s with
  | [] => none
  | c :: _ => if p c then some (s.takeWhile p, s.dropWhile p) else none

/-- The name of a script variable, and what follows it. -/
def ident? : List Char → Option (List Char × List Char)
  | [] => none
  | c :: rest =>
    if isIdentStart c then some (c :: rest.takeWhile isIdentChar, rest.dropWhile isIdentChar)
    else none

/-- The text up to `stop`, and what follows `stop`. -/
def upTo? (stop : List Char) : List Char → Option (List Char × List Char)
  | [] => none
  | c :: s =>
    match after? stop (c :: s) with
    | some rest => some ([], rest)
    | none => (upTo? stop s).map fun (inner, rest) => (c :: inner, rest)

/-- The text up to the first place where `stop` answers, and its answer. -/
def untilMatch? (stop : List Char → Option (List Char)) : List Char → Option (List Char × List Char)
  | [] => none
  | c :: s =>
    match stop (c :: s) with
    | some rest => some ([], rest)
    | none => (untilMatch? stop s).map fun (inner, rest) => (c :: inner, rest)

/-- The character before is none or a line feed. -/
def atLineStart : Option Char → Bool
  | none => true
  | some c => c == '\n'

/-- The character before satisfies `p`. -/
def precededBy (p : Char → Bool) : Option Char → Bool
  | none => false
  | some c => p c

/-- A text starts with a character that satisfies `p`. -/
def followedBy (p : Char → Bool) : List Char → Bool
  | [] => false
  | c :: _ => p c

end PageCompiler.Text
