import PageCompiler.Block
import PageCompiler.Text.Letter

/-!
# `PageCompiler.Document.Basic`: documents

A document is a list of sections in the order of their first heading. A section holds components,
which are its braced blocks, and plain properties. Four sections declare state, handlers and
settings; the components of every other section are rendered.
-/

set_option autoImplicit false

namespace PageCompiler

open Text

/-- A named block. -/
structure Component where
  name : String
  /-- The declared type, if there is one and it is not blank. -/
  patternName : Option String
  properties : Fields
  /-- The lines of the block as they stand in the document. -/
  rawText : String
  /-- The name of the section it stands in. -/
  inSection : String
  /-- The number of the line that opens the block, counted from one. -/
  line : Nat
  deriving Inhabited, Repr

/-- What stands under one heading. The components have different names. -/
structure Section where
  name : String
  components : List Component
  properties : Fields
  deriving Inhabited, Repr

/-- A document. The sections have different names. -/
structure Document where
  /-- Properties in front of the first heading. -/
  metadata : Fields
  sections : List Section
  deriving Inhabited, Repr

/-- A document that is not well formed, and where. -/
structure ParseError where
  reason : Reason
  line : Option Int
  inSection : Option String
  deriving DecidableEq, Repr

/-- What is said about a document that is not well formed. -/
def ParseError.message (e : ParseError) : String :=
  match e.line with
  | some n => e.reason.code ++ " (line " ++ toString n ++ ")"
  | none => e.reason.code

/-- Why a text cannot be read as a document. -/
inductive ReadError where
  | malformed (e : ParseError)
  | numeral (e : NumeralTooLong)
  deriving DecidableEq, Repr

/-- What is said about a text that cannot be read as a document. -/
def ReadError.message : ReadError → String
  | .malformed e => e.message
  | .numeral e => e.message

/-- Sections that declare state, handlers or settings. -/
def declarationSections : List String :=
  ["app_configuration", "data_model", "user_interactions", "styling"]

/-- The section that every document needs. -/
def componentSection : String := "ui_components"

/-- The section of blocks that stand in front of the first heading. -/
def preambleSection : String := "preamble"

/-- The title of a document that names none. -/
def defaultTitle : String := "Generated App"

/-- The name of a section: its heading in lower case, with one underscore for each gap. -/
def sectionName (heading : List Char) : String :=
  String.ofList ("_".toList.intercalate (fields (lower (trim heading))))

/-- A section without content. -/
def Section.empty (name : String) : Section :=
  { name, components := [], properties := [] }

/-- The components of the section are rendered. -/
def Section.renders (s : Section) : Bool :=
  !declarationSections.contains s.name

/-- The component of a name. -/
def Section.component? (s : Section) (name : String) : Option Component :=
  s.components.find? fun c => c.name == name

/-- Puts a component in the place of one with the same name, else at the end. -/
def placeComponent (c : Component) : List Component → List Component
  | [] => [c]
  | old :: rest => if old.name == c.name then c :: rest else old :: placeComponent c rest

/-- Puts a component into a section, in the place of one with the same name. -/
def Section.put (s : Section) (c : Component) : Section :=
  { s with components := placeComponent c s.components }

/-- A document without content. -/
def Document.empty : Document :=
  { metadata := [], sections := [] }

/-- The section of a name. -/
def Document.section? (d : Document) (name : String) : Option Section :=
  d.sections.find? fun s => s.name == name

/-- Changes the section of a name. Where it is missing, an empty one is added first, at the end. -/
def modifySectionIn (name : String) (f : Section → Section) : List Section → List Section
  | [] => [f (Section.empty name)]
  | s :: rest => if s.name == name then f s :: rest else s :: modifySectionIn name f rest

/-- Changes the section of a name. A document without it gets an empty one first, at the end. -/
def Document.modifySection (d : Document) (name : String) (f : Section → Section) : Document :=
  { d with sections := modifySectionIn name f d.sections }

/-- Makes sure that a document has a section. -/
def Document.ensureSection (d : Document) (name : String) : Document :=
  d.modifySection name id

/-- The components that are rendered, section by section. -/
def Document.components (d : Document) : List Component :=
  (d.sections.filter Section.renders).flatMap Section.components

/-- A text that is not blank, without the white space at its ends. -/
def titleText? : Option Value → Option String
  | some (.text s) => if allBlank s.toList then none else some (trimmed s)
  | _ => none

/-- The title: the first usable one of name and title in the configuration, then of name and title
in front of the first heading. -/
def Document.title (d : Document) : String :=
  let config := ((d.section? "app_configuration").map Section.properties).getD []
  let candidates :=
    [Assoc.get? config "name", Assoc.get? config "title",
     Assoc.get? d.metadata "name", Assoc.get? d.metadata "title"]
  (candidates.findSome? titleText?).getD defaultTitle

end PageCompiler
