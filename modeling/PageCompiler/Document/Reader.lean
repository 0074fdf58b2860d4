import PageCompiler.Document.Basic
import PageCompiler.Document.Braces
import PageCompiler.Text.Lines
import PageCompiler.Text.Search

/-!
# `PageCompiler.Document.Reader`: from text to document

A document is read line by line. A line opens a section, opens a block, assigns a property, is a
comment, or is free text that is passed over. A block that does not close on its line takes the
following lines as they are until its braces balance.

`Reader.step` is the effect of one line. `Document.read` runs it over all lines.
-/

set_option autoImplicit false

namespace PageCompiler

open Text

namespace Reader

/-- What a line outside of blocks says. -/
inductive Line where
  | blank
  | comment
  | heading (name : String)
  | opening (name : String)
  | closing
  | assignment (key : String) (value : List Char)
  | freeText
  deriving DecidableEq, Repr

/-- A name at the start of a text, and what follows it. -/
def name? : List Char → Option (List Char × List Char)
  | [] => none
  | c :: rest =>
    if isNameStart c then some (c :: rest.takeWhile isNameChar, rest.dropWhile isNameChar)
    else none

/-- A name before a colon at the start of a text, and what follows the colon and its gap. -/
def key? (s : List Char) : Option (String × List Char) :=
  match name? s with
  | some (name, rest) =>
    match rest.dropWhile isBlank with
    | ':' :: value => some (String.ofList name, value.dropWhile isBlank)
    | _ => none
  | none => none

/-- What a line outside of blocks says, given without the white space at its ends. -/
def classify (line : List Char) : Line :=
  match line with
  | [] => .blank
  | '#' :: '#' :: _ => .heading (sectionName (line.dropWhile (· == '#')))
  | '#' :: _ => .comment
  | '\x7d' :: _ => .closing
  | _ =>
    match key? line with
    | some (key, '\x7b' :: _) => .opening key
    | some (key, value) => .assignment key value
    | none => .freeText

/-- A block whose closing brace has not been reached. -/
structure OpenBlock where
  name : String
  /-- The number of its first line. -/
  start : Nat
  /-- The lines read so far. -/
  lines : List (List Char)
  depth : Int
  deriving DecidableEq, Repr

/-- What has been read. -/
structure State where
  document : Document
  /-- The section that takes the next property or block. -/
  current : Option String
  block : Option OpenBlock
  /-- The numbers of the lines of free text. -/
  freeText : List Nat
  deriving Inhabited, Repr

/-- Nothing has been read. -/
def State.start : State :=
  { document := .empty, current := none, block := none, freeText := [] }

/-- A failure at a line of the current section. -/
def State.fail {α : Type} (st : State) (reason : Reason) (line : Nat) : Except ReadError α :=
  .error (.malformed { reason, line := some line, inSection := st.current })

/-- The declared type of a block. -/
def patternName? (properties : Fields) : Option String :=
  titleText? (Assoc.get? properties "type")

/-- A block text from the brace behind its first colon on. -/
def blockBody (raw : List Char) : List Char :=
  (raw.dropWhile (· != ':')).dropWhile (· != '\x7b')

/-- The component of a block that is complete. -/
def component (inSection name : String) (start : Nat) (lines : List (List Char)) :
    Except ReadError Component :=
  let raw := join ['\n'] lines
  match Block.readBlock (blockBody raw) with
  | .ok properties =>
    .ok { name, patternName := patternName? properties, properties, rawText := String.ofList raw,
          inSection, line := start }
  | .error (.numeral e) => .error (.numeral e)
  | .error (.broken reason rest) =>
    .error (.malformed
      { reason, line := some (start + (countFeeds raw - countFeeds rest)),
        inSection := some inSection })

/-- Adds a block that is complete to the current section, or to the preamble if there is none. -/
def State.close (st : State) (name : String) (start : Nat) (lines : List (List Char)) :
    Except ReadError State :=
  let home := st.current.getD preambleSection
  let document := st.document.ensureSection home
  let st := { st with document, current := some home, block := none }
  match (document.section? home).bind fun s => s.component? name with
  | some _ => st.fail .duplicateComponent start
  | none =>
    match component home name start lines with
    | .error e => .error e
    | .ok c => .ok { st with document := document.modifySection home (·.put c) }

/-- Assigns a property of the current section, or of the document if there is none. -/
def State.assign (st : State) (key : String) (value : Value) : State :=
  match st.current with
  | none => { st with document.metadata := Assoc.insert st.document.metadata key value }
  | some home =>
    { st with document := st.document.modifySection home fun s =>
        { s with properties := Assoc.insert s.properties key value } }

/-- A block that has come to `depth` at a line: below zero a brace too many was closed, at zero it
is complete, above it stays open. -/
def State.settle (st : State) (b : OpenBlock) (line : Nat) : Except ReadError State :=
  if b.depth < 0 then st.fail .unexpectedClose line
  else if b.depth == 0 then st.close b.name b.start b.lines
  else .ok { st with block := some b }

/-- The effect of one line. -/
def step (st : State) (number : Nat) (line : List Char) : Except ReadError State :=
  match st.block with
  | some b =>
    st.settle { b with lines := b.lines ++ [line], depth := b.depth + Braces.delta line } number
  | none =>
    match classify (trim line) with
    | .blank | .comment => .ok st
    | .heading name =>
      .ok { st with document := st.document.ensureSection name, current := some name }
    | .opening name =>
      st.settle { name, start := number, lines := [line], depth := Braces.delta (trim line) } number
    | .closing => st.fail .unexpectedClose number
    | .assignment key value =>
      match Block.readInline value with
      | .ok v => .ok (st.assign key v)
      | .error e => .error (.numeral e)
    | .freeText => .ok { st with freeText := st.freeText ++ [number] }

/-- The effect of lines that are numbered from `number` on. -/
def run (st : State) (number : Nat) : List (List Char) → Except ReadError State
  | [] => .ok st
  | line :: rest =>
    match step st number line with
    | .error e => .error e
    | .ok st => run st (number + 1) rest

/-- What has been read at the end of the text. No block may be open. -/
def State.finish (st : State) : Except ReadError State :=
  match st.block with
  | some b => st.fail .unterminatedBlock b.start
  | none => .ok st

end Reader

/-- Reads a document, and keeps the numbers of the lines that were passed over as free text. -/
def Document.readAll (text : String) : Except ReadError (Document × List Nat) :=
  match Reader.run .start 1 (lines text.toList) with
  | .error e => .error e
  | .ok st => st.finish.map fun st => (st.document, st.freeText)

/-- Reads a document (`parse_document`). -/
def Document.read (text : String) : Except ReadError Document :=
  (Document.readAll text).map (·.1)

end PageCompiler
