import PageCompiler.Yaml.Cursor

/-!
# `PageCompiler.Yaml.Plain`: scalars without quotes

A plain scalar is a row of words. It ends where a word cannot go on, at a comment, and at a line
that is not indented deeper than the collection it stands in. Within brackets the signs of flow
collections end it and indentation does not count. Line breaks between words are folded as in
quoted scalars. A tab never belongs to it.
-/

set_option autoImplicit false

namespace PageCompiler.Yaml.Plain

/-- Signs of flow collections, which end a word within brackets. -/
def isFlowSign (c : Char) : Bool :=
  c == ',' || c == '[' || c == ']' || c == '\x7b' || c == '\x7d'

/-- The colon of an entry: a blank or the end follows it, or within brackets a sign. -/
def endsKey (flow : Bool) (rest : List Char) : Bool :=
  atSpace rest || (flow && rest.head?.any isFlowSign)

/-- A word of a plain scalar. -/
def word (flow : Bool) : List Char → List Char
  | [] => []
  | c :: rest =>
    if isSpace c || (c == ':' && endsKey flow rest) || (flow && (c == '?' || isFlowSign c)) then []
    else c :: word flow rest

theorem length_word_le (flow : Bool) (s : List Char) : (word flow s).length ≤ s.length := by
  induction s with
  | nil => simp [word]
  | cons c rest ih =>
    simp only [word]
    split
    · exact Nat.zero_le _
    · simpa using ih

/-- What stands between two words. -/
structure Gap where
  /-- What the gap stands for. It is missing if the mark of a document comes next. -/
  text : Option (List Char)
  /-- The number of characters in the gap. -/
  size : Nat
  /-- The gap has a line break in it. -/
  crossesLine : Bool
  deriving DecidableEq, Repr

/-- The blanks and line breaks behind a line break, and their number. `fresh` says that a line
starts here. There are none where the mark of a document stands. -/
def breaks (fresh : Bool) : List Char → Option (List Char) × Nat
  | [] => (some [], 0)
  | c :: rest =>
    if fresh && atMark (c :: rest) then (none, 0)
    else if c == ' ' then
      let (more, n) := breaks false rest
      (more, n + 1)
    else if isBreak c then
      let (more, n) := breaks true rest
      (more.map (breakChar c :: ·), n + 1)
    else (some [], 0)

/-- The gap at the start of a text. -/
def gap (s : List Char) : Gap :=
  let blanks := s.takeWhile (· == ' ')
  match s.drop blanks.length with
  | [] => { text := some blanks, size := blanks.length, crossesLine := false }
  | c :: rest =>
    if isBreak c then
      let (more, n) := breaks true rest
      { text := more.map (foldBreaks c), size := blanks.length + 1 + n, crossesLine := true }
    else { text := some blanks, size := blanks.length, crossesLine := false }

/-- A plain scalar that has been read. -/
structure Found where
  text : List Char
  /-- The place behind the scalar and the gap after it. -/
  cursor : Cursor
  /-- The gap after the scalar has a line break in it. -/
  crossesLine : Bool
  deriving DecidableEq, Repr

/-- Reads the words of a plain scalar. A further word stands in a column from `least` on. `done` is
what has been read so far, last character first, and `between` the gap behind it. -/
def words (flow : Bool) (least : Int) (done between : List Char) (crossed : Bool) (c : Cursor) :
    Found :=
  let found := word flow c.rest
  if _ : found = [] then { text := done.reverse, cursor := c, crossesLine := crossed }
  else
    let g := gap (c.skip found.length).rest
    let after := (c.skip found.length).skip g.size
    let read := found.reverse ++ between.reverse ++ done
    let stop : Found := { text := read.reverse, cursor := after, crossesLine := g.crossesLine }
    match g.text with
    | none | some [] => stop
    | some blanks =>
      if after.rest.head? == some '#' || (!flow && after.column < least) then stop
      else words flow least read blanks g.crossesLine after
termination_by c.rest.length
decreasing_by
  have := length_word_le flow c.rest
  have := List.length_pos_iff.2 ‹¬word flow c.rest = []›
  simp only [Cursor.rest_skip, List.length_drop]
  omega

end PageCompiler.Yaml.Plain
