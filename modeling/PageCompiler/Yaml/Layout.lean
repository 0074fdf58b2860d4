import PageCompiler.Yaml.Plain
import PageCompiler.Yaml.Quoted

/-!
# `PageCompiler.Yaml.Layout`: the tokens of a file

Indentation opens and closes block collections. A `Layout` is a reader in the middle of a file: it
knows the columns of the open block collections, how many brackets are open, and which tokens may
still turn out to be the key of an entry. Such a token becomes a key when a colon comes in the same
line, at most 1024 characters behind its start. Then the sign of the key is put before it, and the
start of a mapping too if the key is indented deeper than what it stands in.

* `Layout.step` reads one token.
* `tokens` reads them all.

Anchors, tags, directives and block scalars are not read.
-/

set_option autoImplicit false

namespace PageCompiler.Yaml

/-- The tokens of a file. -/
inductive Token where
  | streamEnd
  | documentStart
  | documentEnd
  | blockSequence
  | blockMapping
  | blockEnd
  | flowSequence
  | flowSequenceEnd
  | flowMapping
  | flowMappingEnd
  /-- The dash of an item of a block sequence. -/
  | item
  | comma
  | key
  | value
  | scalar (text : String) (plain : Bool)
  /-- Reading stops here at a scalar that denotes nothing. -/
  | broken (e : BadScalar)
  deriving DecidableEq, Repr

/-- A token that may turn out to be a key. -/
structure Candidate where
  /-- How many tokens there are before it. -/
  position : Nat
  /-- Without a colon the file is not well formed. -/
  required : Bool
  start : Cursor
  deriving DecidableEq, Repr

/-- A reader in the middle of a file. -/
structure Layout where
  cursor : Cursor
  tokens : List Token
  /-- The number of open brackets. -/
  flow : Nat
  /-- The column of the innermost block collection, or −1. -/
  indent : Int
  /-- The columns of the block collections around it. -/
  outer : List Int
  /-- A key may start here. -/
  keysAllowed : Bool
  /-- Candidates by the number of open brackets around them. -/
  candidates : List (Nat × Candidate)
  /-- What stands for halves of characters in scalars. -/
  standIns : Text.StandIns
  deriving DecidableEq, Repr

namespace Layout

/-- The start of a file. -/
def ofText (s : List Char) : Layout where
  cursor := Cursor.ofText s
  tokens := []
  flow := 0
  indent := -1
  outer := []
  keysAllowed := true
  candidates := []
  standIns := Text.StandIns.ofText s

/-- The candidates for a key reach at most this far. -/
def maxKeyLength : Nat := 1024

/-- A candidate that is too far back to be a key. -/
def isStale (l : Layout) (c : Candidate) : Bool :=
  c.start.line != l.cursor.line || maxKeyLength < l.cursor.index - c.start.index

/-- Gives up the candidates that are too far back. -/
def dropStale (l : Layout) : Except YamlError Layout :=
  if l.candidates.any fun (_, c) => l.isStale c && c.required then .error .malformed
  else .ok { l with candidates := l.candidates.filter fun (_, c) => !l.isStale c }

/-- The candidate within the open brackets. -/
def candidate? (l : Layout) : Option Candidate :=
  (l.candidates.find? fun (flow, _) => flow == l.flow).map (·.2)

/-- Gives up the candidate within the open brackets. -/
def forget (l : Layout) : Except YamlError Layout :=
  if l.candidate?.any (·.required) then .error .malformed
  else .ok { l with candidates := l.candidates.filter fun (flow, _) => flow != l.flow }

/-- Makes the next token a candidate, if a key may start here. -/
def offer (l : Layout) : Except YamlError Layout :=
  if l.keysAllowed then
    match l.forget with
    | .error e => .error e
    | .ok l =>
      let c : Candidate :=
        { position := l.tokens.length, required := l.flow == 0 && l.indent == l.cursor.column,
          start := l.cursor }
      .ok { l with candidates := (l.flow, c) :: l.candidates }
  else .ok l

/-- Adds a token. -/
def push (l : Layout) (t : Token) : Layout :=
  { l with tokens := l.tokens ++ [t] }

/-- Adds a token of `n` characters. -/
def take (l : Layout) (n : Nat) (t : Token) : Layout :=
  { l.push t with cursor := l.cursor.skip n }

/-- Ends the block collections that are indented deeper than a column. -/
def unwindFrom (column : Int) (l : Layout) : List Int → Layout
  | [] => { l with outer := [] }
  | around :: outer =>
    if column < l.indent then
      unwindFrom column { l.push .blockEnd with indent := around } outer
    else { l with outer := around :: outer }

/-- Ends the block collections that are indented deeper than a column. Within brackets indentation
does not count. -/
def unwind (l : Layout) (column : Int) : Layout :=
  if l.flow == 0 then unwindFrom column l l.outer else l

/-- Starts a block collection at a column, if that is deeper than the innermost one. The sign of its
start goes before the token at `position`. -/
def openBlock (l : Layout) (column : Int) (position : Nat) (start : Token) : Layout :=
  if l.indent < column then
    { l with
      indent := column, outer := l.indent :: l.outer, tokens := l.tokens.insertIdx position start }
  else l

/-- Starts a block collection here. A key has to be allowed here. Within brackets nothing is to be
done. -/
def openHere (l : Layout) (start : Token) : Except YamlError Layout :=
  if l.flow != 0 then .ok l
  else if l.keysAllowed then .ok (l.openBlock l.cursor.column l.tokens.length start)
  else .error .malformed

/-- The number of blanks, comments and line breaks at the start of a text, and whether there is a
line break among them. -/
def margin (inComment : Bool) : List Char → Nat × Bool
  | [] => (0, false)
  | c :: rest =>
    if isBreak c then
      let (n, _) := margin false rest
      (n + 1, true)
    else if inComment then
      let (n, crosses) := margin true rest
      (n + 1, crosses)
    else if c == ' ' || c == '#' then
      let (n, crosses) := margin (c == '#') rest
      (n + 1, crosses)
    else (0, false)

/-- Passes over a byte order mark at the start. -/
def skipMark (l : Layout) : Layout :=
  if l.cursor.index == 0 && l.cursor.rest.head? == some Cursor.byteOrderMark then
    { l with cursor := l.cursor.next }
  else l

/-- Passes over blanks, comments and line breaks. A key may start in a new line, unless brackets are
open. -/
def skipMargin (l : Layout) : Layout :=
  let (n, crosses) := margin false l.cursor.rest
  { l with
    cursor := l.cursor.skip n, keysAllowed := l.keysAllowed || (crosses && l.flow == 0) }

/-- The end of the file. -/
def readEnd (l : Layout) : Except YamlError Layout :=
  match (l.unwind (-1)).forget with
  | .error e => .error e
  | .ok l => .ok (l.push .streamEnd)

/-- The mark of a document. -/
def readMark (l : Layout) (t : Token) : Except YamlError Layout :=
  match (l.unwind (-1)).forget with
  | .error e => .error e
  | .ok l => .ok { l.take 3 t with keysAllowed := false }

/-- An opening bracket. It may start a key. -/
def readOpening (l : Layout) (t : Token) : Except YamlError Layout :=
  match l.offer with
  | .error e => .error e
  | .ok l => .ok { l.take 1 t with flow := l.flow + 1, keysAllowed := true }

/-- A closing bracket. -/
def readClosing (l : Layout) (t : Token) : Except YamlError Layout :=
  if l.flow == 0 then .error .malformed
  else
    match l.forget with
    | .error e => .error e
    | .ok l => .ok { l.take 1 t with flow := l.flow - 1, keysAllowed := false }

/-- A comma within brackets. -/
def readComma (l : Layout) : Except YamlError Layout :=
  match l.forget with
  | .error e => .error e
  | .ok l => .ok { l.take 1 .comma with keysAllowed := true }

/-- The dash of an item. -/
def readItem (l : Layout) : Except YamlError Layout :=
  match (l.openHere .blockSequence).bind forget with
  | .error e => .error e
  | .ok l => .ok { l.take 1 .item with keysAllowed := true }

/-- The question mark of a key. -/
def readKey (l : Layout) : Except YamlError Layout :=
  match (l.openHere .blockMapping).bind forget with
  | .error e => .error e
  | .ok l => .ok { l.take 1 .key with keysAllowed := l.flow == 0 }

/-- The colon of an entry. It turns the candidate into a key. -/
def readValue (l : Layout) : Except YamlError Layout :=
  match l.candidate? with
  | some c =>
    let l := { l with
      candidates := l.candidates.filter fun (flow, _) => flow != l.flow
      tokens := l.tokens.insertIdx c.position .key }
    let l := if l.flow == 0 then l.openBlock c.start.column c.position .blockMapping else l
    .ok { l.take 1 .value with keysAllowed := false }
  | none =>
    match (l.openHere .blockMapping).bind forget with
    | .error e => .error e
    | .ok l => .ok { l.take 1 .value with keysAllowed := l.flow == 0 }

/-- A scalar in quotes. -/
def readQuoted (l : Layout) (double : Bool) : Except YamlError Layout :=
  match l.offer with
  | .error e => .error e
  | .ok l =>
    match Quoted.read l.standIns double [] l.cursor.rest.tail with
    | .error e => .error e
    | .ok (inner, rest) =>
      let size := l.cursor.rest.length - rest.length
      .ok { l.take size (.scalar (String.ofList inner) false) with keysAllowed := false }

/-- A scalar without quotes. If a line ends behind it, a key may follow. -/
def readPlain (l : Layout) : Except YamlError Layout :=
  match l.offer with
  | .error e => .error e
  | .ok l =>
    let found := Plain.words (l.flow != 0) (l.indent + 1) [] [] false l.cursor
    .ok { l.push (.scalar (String.ofList found.text) true) with
      cursor := found.cursor, keysAllowed := found.crossesLine }

/-- Characters that cannot start a plain scalar. -/
def isIndicator (c : Char) : Bool :=
  "-?:,[]\x7b\x7d#&*!|>\x27\"%@\x60".toList.contains c

/-- A plain scalar can start with this character before that text. -/
def startsPlain (l : Layout) (c : Char) (rest : List Char) : Bool :=
  (!isSpace c && !isIndicator c) ||
    (!atSpace rest && (c == '-' || (l.flow == 0 && (c == '?' || c == ':'))))

/-- Reads the token that starts with a character before a text. -/
def readToken (l : Layout) (c : Char) (rest : List Char) : Except YamlError Layout :=
  if l.cursor.column == 0 && atMark (c :: rest) then
    l.readMark (if c == '-' then .documentStart else .documentEnd)
  else if c == '[' then l.readOpening .flowSequence
  else if c == '\x7b' then l.readOpening .flowMapping
  else if c == ']' then l.readClosing .flowSequenceEnd
  else if c == '\x7d' then l.readClosing .flowMappingEnd
  else if c == ',' then l.readComma
  else if c == '-' && atSpace rest then l.readItem
  else if c == '?' && (l.flow != 0 || atSpace rest) then l.readKey
  else if c == ':' && (l.flow != 0 || atSpace rest) then l.readValue
  else if c == '\x27' then l.readQuoted false
  else if c == '"' then l.readQuoted true
  else if l.startsPlain c rest then l.readPlain
  else .error .malformed

/-- Reads one token, and the ends of the block collections before it. -/
def step (l : Layout) : Except YamlError Layout :=
  match l.skipMark.skipMargin.dropStale with
  | .error e => .error e
  | .ok l =>
    let l := l.unwind l.cursor.column
    match l.cursor.rest with
    | [] => l.readEnd
    | c :: rest => l.readToken c rest

/-- The number of tokens in front of the first candidate. Only they are settled. -/
def settled (l : Layout) : Nat :=
  l.candidates.foldl (fun n (_, c) => min n c.position) l.tokens.length

/-- Reads the tokens from here on. At a scalar that denotes nothing the settled tokens are followed
by the sign that reading stops. -/
def finish (l : Layout) : Except YamlError (List Token) :=
  match l.dropStale with
  | .error e => .error e
  | .ok fresh =>
    match fresh.step with
    | .error (.scalar e) => .ok (fresh.tokens.take fresh.settled ++ [.broken e])
    | .error .malformed => .error .malformed
    | .ok next =>
      if next.tokens.getLast? == some .streamEnd then .ok next.tokens
      else if next.cursor.rest.length < l.cursor.rest.length then next.finish
      else .error .malformed
termination_by l.cursor.rest.length

end Layout

/-- The tokens of a text. -/
def tokens (s : List Char) : Except YamlError (List Token) :=
  (Layout.ofText s).finish

end PageCompiler.Yaml
