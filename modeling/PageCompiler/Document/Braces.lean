import PageCompiler.Scalar

/-!
# `PageCompiler.Document.Braces`: brace depth of a line

A block runs until its braces balance. Braces inside quotes do not count, and neither do those of
a comment line. A quote opens only at the start of a token: at the start of the line, or after
white space, a colon, a comma or an opening bracket. So the apostrophe of a contraction opens
nothing.
-/

set_option autoImplicit false

namespace PageCompiler.Braces

open Text

/-- Where a scan of a line stands with respect to quotes. -/
inductive Quoting where
  /-- Outside of quotes, behind the given character. -/
  | outside (previous : Char)
  | inside (quote : Char)
  /-- Inside of quotes, behind a backslash that protects the next character. -/
  | escaped (quote : Char)
  deriving DecidableEq, Repr

/-- Characters behind which a quote opens. -/
def startsToken (c : Char) : Bool :=
  c == ' ' || c == '\t' || c == ':' || c == ',' || c == '[' || c == '\x7b' || c == '('

/-- The state behind one more character. -/
def Quoting.next : Quoting → Char → Quoting
  | .escaped quote, _ => .inside quote
  | .inside quote, c =>
    if c == '\\' then .escaped quote else if c == quote then .outside c else .inside quote
  | .outside previous, c =>
    if Scalar.isQuote c && startsToken previous then .inside c else .outside c

/-- What one character adds to the depth. -/
def weight : Quoting → Char → Int
  | .outside _, c => if c == '\x7b' then 1 else if c == '\x7d' then -1 else 0
  | _, _ => 0

/-- Opening minus closing braces outside of quotes. -/
def balance (q : Quoting) : List Char → Int
  | [] => 0
  | c :: rest => weight q c + balance (q.next c) rest

/-- A line that is a comment as a whole. -/
def isCommentLine (line : List Char) : Bool :=
  match trim line with
  | '/' :: '/' :: _ => true
  | ['#'] => true
  | '#' :: c :: _ => c == ' ' || c == '\t'
  | _ => false

/-- What a line adds to the depth (`brace_delta`). -/
def delta (line : List Char) : Int :=
  if isCommentLine line then 0 else balance (.outside ' ') line

end PageCompiler.Braces
