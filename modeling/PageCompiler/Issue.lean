import PageCompiler.Document.Reader

/-!
# `PageCompiler.Issue`: structural defects of a text

`Issue.detect` lists the defects of a text before it is read as a document. A blank text has one
defect and no other. Otherwise the defects are, in this order: a required section that is missing,
the first place where the text is not well formed, declared types outside of any block, and uneven
indentation.
-/

set_option autoImplicit false

namespace PageCompiler

open Text

/-- A defect of a text. -/
inductive Issue where
  | emptyInput
  | missingSection (name : String)
  | malformedBlock (e : ParseError)
  /-- A type is declared at a line of a section, but in no block. -/
  | strayType (line : Nat) (inSection : Option String)
  /-- One line is indented with tabs and spaces. -/
  | mixedIndentation (line : Nat)
  /-- Some lines are indented with tabs and some with spaces. -/
  | unevenIndentation (line : Nat)
  deriving DecidableEq, Repr

namespace Issue

/-- The code under which a defect is reported. -/
def code : Issue → String
  | .emptyInput => "EMPTY_INPUT"
  | .missingSection _ => "MISSING_REQUIRED_SECTION"
  | .malformedBlock _ | .strayType _ _ => "MALFORMED_COMPONENT_BLOCK"
  | .mixedIndentation _ | .unevenIndentation _ => "INCONSISTENT_INDENTATION"

/-- What is said about a defect. -/
def message : Issue → String
  | .emptyInput => "APML input is empty."
  | .missingSection name => "Missing required section '" ++ name ++ "'."
  | .malformedBlock e => "Component block cannot be parsed: " ++ e.reason.code ++ "."
  | .strayType _ _ => "Component 'type' declared outside of a braced block."
  | .mixedIndentation _ => "Indentation mixes tabs and spaces."
  | .unevenIndentation _ => "Indentation differs from the rest of the document."

/-- The line of a defect. -/
def line? : Issue → Option Int
  | .emptyInput | .missingSection _ => none
  | .malformedBlock e => e.line
  | .strayType line _ | .mixedIndentation line | .unevenIndentation line => some (line : Int)

/-- The section of a defect. -/
def section? : Issue → Option String
  | .missingSection name => some name
  | .malformedBlock e => e.inSection
  | .strayType _ inSection => inSection
  | .emptyInput | .mixedIndentation _ | .unevenIndentation _ => none

/-- A text with this defect can be mended. -/
def repairable : Issue → Bool
  | .emptyInput => false
  | _ => true

/-- A defect in one line. -/
def describe (i : Issue) : String :=
  let location :=
    match i.line? with
    | some n => " (line " ++ toString n ++ ")"
    | none => ""
  i.code ++ ": " ++ i.message ++ location

/-- The fields of a defect in a report. -/
def toValue (i : Issue) : Value :=
  .map
    [("code", .text i.code), ("message", .text i.message),
     ("line_number", (i.line?.map fun n => Value.int n).getD .null),
     ("section", (i.section?.map Value.text).getD .null),
     ("repairable", .bool i.repairable)]

/-- Defects in one line, behind what they are about. -/
def summary (about : String) (issues : List Issue) : String :=
  about ++ ": " ++ "; ".intercalate (issues.map describe)

/-- The name on a heading line, given without the white space at its ends. -/
def heading? (line : List Char) : Option String :=
  match line with
  | '#' :: '#' :: _ => some (sectionName (line.dropWhile (· == '#')))
  | _ => none

/-- Sections that every document needs. -/
def requiredSections : List String := [componentSection]

/-- Required sections that no heading names (`missing_sections`). -/
def missingSections (lines : List (List Char)) : List Issue :=
  let present := lines.filterMap fun line => heading? (trim line)
  (requiredSections.filter fun name => !present.contains name).map .missingSection

/-- A line that declares a type, given without the white space at its ends. -/
def isTypeLine (line : List Char) : Bool :=
  match after? "type".toList line with
  | some rest => startsWith [':'] (rest.dropWhile isBlank)
  | none => false

/-- Declared types outside of any block, in lines that are numbered from `number` on. The line of
a defect that is known already is passed over. -/
def strayTypes (known : Option Int) (inSection : Option String) (depth : Int) (number : Nat) :
    List (List Char) → List Issue
  | [] => []
  | line :: rest =>
    let bare := trim line
    match (if depth == 0 then heading? bare else none) with
    | some name => strayTypes known (some name) depth (number + 1) rest
    | none =>
      let declares :=
        match inSection with
        | some name => declarationSections.contains name
        | none => false
      if depth == 0 && isTypeLine bare && !declares then
        if known == some (number : Int) then strayTypes known inSection depth (number + 1) rest
        else .strayType number inSection :: strayTypes known inSection depth (number + 1) rest
      else
        strayTypes known inSection (max (depth + Braces.delta bare) 0) (number + 1) rest

/-- Blocks that are not well formed. -/
def malformedBlocks (text : String) (lines : List (List Char)) :
    Except NumeralTooLong (List Issue) :=
  match Document.read text with
  | .ok _ => .ok (strayTypes none none 0 1 lines)
  | .error (.malformed e) => .ok (.malformedBlock e :: strayTypes e.line none 0 1 lines)
  | .error (.numeral e) => .error e

/-- How a line is indented. -/
inductive Indent where
  | none
  | tabs
  | spaces
  | mixed
  deriving DecidableEq, Repr

/-- How a line is indented. Blank lines count as not indented. -/
def indentOf (line : List Char) : Indent :=
  if allBlank line then .none
  else
    let leading := line.takeWhile fun c => c == ' ' || c == '\t'
    match leading.contains '\t', leading.contains ' ' with
    | true, true => .mixed
    | true, false => .tabs
    | false, true => .spaces
    | false, false => .none

/-- The numbers of the lines that are indented in a way. -/
def linesIndented (how : Indent) (indents : List (Nat × Indent)) : List Nat :=
  (indents.filter fun entry => entry.2 == how).map (·.1)

/-- Uneven indentation: the first mixed line, else the first line of the rarer kind. -/
def unevenLines (lines : List (List Char)) : List Issue :=
  let indents := (lines.map indentOf).zipIdx 1 |>.map fun (how, n) => (n, how)
  match linesIndented .mixed indents with
  | line :: _ => [.mixedIndentation line]
  | [] =>
    let tabs := linesIndented .tabs indents
    let spaces := linesIndented .spaces indents
    match tabs, spaces with
    | tab :: _, space :: _ =>
      [.unevenIndentation (if tabs.length ≤ spaces.length then tab else space)]
    | _, _ => []

/-- The defects of a text (`detect_issues`). -/
def detect (text : String) : Except NumeralTooLong (List Issue) :=
  if allBlank text.toList then .ok [.emptyInput]
  else
    let ls := lines text.toList
    match malformedBlocks text ls with
    | .error e => .error e
    | .ok malformed => .ok (missingSections ls ++ malformed ++ unevenLines ls)

end Issue

end PageCompiler
