import PageCompiler.Policy.Basic
import PageCompiler.Text.Scan

/-!
# `PageCompiler.Policy.Rename`: renaming variables in code

An alias is renamed where it stands as a word of its own, outside of string literals and comments.
`Rename.token` recognises the places that matter in code: literals and comments, which stay as
they are, and aliases. Of several aliases that fit at a place the longest is taken.
-/

set_option autoImplicit false

namespace PageCompiler.Rename

open Text

/-- A place in code that matters for renaming. -/
inductive Token where
  /-- A string literal or a comment. -/
  | quiet (text : List Char)
  /-- A name that stands as a word of its own. -/
  | word (name : String)
  deriving DecidableEq, Repr

/-- The rest of a string literal with its closing quote, and what follows. A backslash protects
the next character. A literal in plain quotes does not run over the end of a line. -/
def literalRest? (quote : Char) : List Char → Option (List Char × List Char)
  | [] => none
  | '\\' :: c :: rest => (literalRest? quote rest).map fun (inner, r) => ('\\' :: c :: inner, r)
  | c :: rest =>
    if c == '\\' then none
    else if c == quote then some ([c], rest)
    else if c == '\n' && quote != '\x60' then none
    else (literalRest? quote rest).map fun (inner, r) => (c :: inner, r)

/-- Characters that open a string literal. -/
def isLiteralQuote (c : Char) : Bool :=
  c == '\x27' || c == '"' || c == '\x60'

/-- A string literal or a comment, and what follows. -/
def quiet? : List Char → Option (List Char × List Char)
  | [] => none
  | '/' :: '/' :: rest =>
    some ('/' :: '/' :: rest.takeWhile (· != '\n'), rest.dropWhile (· != '\n'))
  | '/' :: '*' :: rest =>
    (upTo? ['*', '/'] rest).map fun (inner, r) => ('/' :: '*' :: inner ++ ['*', '/'], r)
  | c :: rest =>
    if isLiteralQuote c then (literalRest? c rest).map fun (inner, r) => (c :: inner, r) else none

/-- The first of some names that stands at the start of a text as a word of its own, and what
follows. -/
def firstName? (names : List String) (s : List Char) : Option (String × List Char) :=
  names.findSome? fun name =>
    match after? name.toList s with
    | some rest => if followedBy isIdentChar rest then none else some (name, rest)
    | none => none

/-- Puts a name in front of the first one that is shorter. -/
def insertByLength (name : String) : List String → List String
  | [] => [name]
  | n :: names =>
    if n.length < name.length then name :: n :: names else n :: insertByLength name names

/-- Names with the longest first. Those of one length keep their order. -/
def longestFirst (names : List String) : List String :=
  names.foldl (fun sorted name => insertByLength name sorted) []

/-- A literal, a comment or one of some names. -/
def token (names : List String) : Recogniser Token := fun before s =>
  match quiet? s with
  | some (text, rest) => some (.quiet text, rest)
  | none =>
    if precededBy isIdentChar before then none
    else (firstName? names s).map fun (name, rest) => (.word name, rest)

/-- Code with aliases replaced. -/
def run (aliases : Assoc String) (code : List Char) : List Char :=
  if aliases.isEmpty then code
  else
    replaceAll (token (longestFirst aliases.keys))
      (fun
        | .quiet text => text
        | .word name => ((Assoc.get? aliases name).getD name).toList)
      code

end PageCompiler.Rename
