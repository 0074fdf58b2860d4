/-!
# `PageCompiler.Text.Search`: looking for a fixed text

All functions read from the left. `after?` is the one test the others are built from: it answers
what follows a fixed text at the very start.
-/

set_option autoImplicit false

namespace PageCompiler.Text

/-- What follows `pattern` at the start of a text, if the text starts with it. -/
def after? : (pattern s : List Char) → Option (List Char)
  | [], s => some s
  | _ :: _, [] => none
  | p :: pattern, c :: s => if p == c then after? pattern s else none

/-- A text starts with `pattern`. -/
def startsWith (pattern s : List Char) : Bool :=
  (after? pattern s).isSome

/-- A text holds `pattern` somewhere. -/
def occurs (pattern : List Char) : List Char → Bool
  | [] => pattern.isEmpty
  | c :: s => startsWith pattern (c :: s) || occurs pattern s

/-- A text cut at the first place where `p` holds of what follows: the part before, and the part
that satisfies `p`. -/
def breakAt? (p : List Char → Bool) : List Char → Option (List Char × List Char)
  | [] => if p [] then some ([], []) else none
  | c :: s =>
    if p (c :: s) then some ([], c :: s)
    else (breakAt? p s).map fun (before, rest) => (c :: before, rest)

end PageCompiler.Text
