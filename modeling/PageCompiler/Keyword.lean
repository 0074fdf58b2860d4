import PageCompiler.Text.Letter
import PageCompiler.Text.Scan

/-!
# `PageCompiler.Keyword`: words that point to a pattern

A keyword occurs in a text where it stands on its own, that is, next to no ASCII letter or digit.
Case does not count, neither in the keyword nor in its neighbours.
-/

set_option autoImplicit false

namespace PageCompiler.Keyword

open Text

/-- Characters that must not stand next to a keyword: those that agree up to case with an ASCII
letter or digit. -/
def isTokenChar (c : Char) : Bool :=
  let l := foldCase c
  ('a' ≤ l && l ≤ 'z') || ('0' ≤ l && l ≤ '9')

/-- What follows a keyword at the start of a text, if the text starts with it up to case. -/
def afterFolded? : (keyword s : List Char) → Option (List Char)
  | [], s => some s
  | _ :: _, [] => none
  | k :: keyword, c :: s => if foldCase k == foldCase c then afterFolded? keyword s else none

/-- A keyword on its own. -/
def recognise (keyword : List Char) : Recogniser Unit := fun before s =>
  if precededBy isTokenChar before then none
  else
    match afterFolded? keyword s with
    | some rest => if followedBy isTokenChar rest then none else some ((), rest)
    | none => none

/-- A keyword occurs in a text (`contains_keyword`). -/
def occursIn (keyword : String) (text : String) : Bool :=
  (find? (recognise keyword.toList) text.toList).isSome

end PageCompiler.Keyword
