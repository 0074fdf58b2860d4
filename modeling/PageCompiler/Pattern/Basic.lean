import PageCompiler.Document.Basic
import PageCompiler.Fragment
import PageCompiler.Markup.Display

/-!
# `PageCompiler.Pattern.Basic`: patterns

A pattern is a kind of component that a rule can render. It names the properties that a component
must give, the words that point to it, and the style its markup needs. Rendering is a function of
the component. It fails on a component that does not give the required properties, and on one that
the rule itself refuses. The standard rules refuse none.
-/

set_option autoImplicit false

namespace PageCompiler

open Text

/-- A component that a rule does not render. -/
structure MissingFields where
  component : String
  patternId : String
  /-- The properties that are not given, in order of their names. -/
  fields : List String
  /-- What is said about it. -/
  message : String
  deriving DecidableEq, Repr

/-- A component does not give properties that its pattern requires. -/
def MissingFields.of (component patternId : String) (fields : List String) : MissingFields :=
  { component, patternId, fields,
    message := "Component '" ++ component ++ "' is missing required fields for pattern '" ++
      patternId ++ "': " ++ ", ".intercalate fields }

/-- A kind of component and the rule that renders it. -/
structure Pattern where
  id : String
  /-- Properties that a component must give. -/
  required : List String
  /-- Words that point to this pattern. -/
  keywords : List String
  render : Component → String
  style : String
  /-- The state that the markup expects to exist. -/
  state : Component → Fields
  /-- What the rule reports on a component that it refuses to render. -/
  refusal : Component → Option MissingFields := fun _ => none

/-- A property counts as given unless it is absent, a blank text, or empty. -/
def isGiven : Option Value → Bool
  | none | some .null => false
  | some (.text s) => !allBlank s.toList
  | some (.list items) => !items.isEmpty
  | some (.map fields) => !fields.isEmpty
  | some _ => true

/-- Names in order, each once. -/
def sortedNames (names : List String) : List String :=
  names.eraseDups.mergeSort fun a b => a ≤ b

/-- The required properties that a component does not give. -/
def Pattern.missing (p : Pattern) (c : Component) : List String :=
  sortedNames (p.required.filter fun name => !isGiven (Assoc.get? c.properties name))

/-- Renders a component. -/
def Pattern.generate (p : Pattern) (c : Component) : Except MissingFields Fragment :=
  match p.missing c, p.refusal c with
  | [], none =>
    .ok { component := c.name, markup := p.render c, source := .rule, patternId := some p.id,
          state := p.state c }
  | [], some e => .error e
  | fields, _ => .error (.of c.name p.id fields)

/-- A property of a component as markup, or a default. -/
def Component.prop (c : Component) (key : String) (default : String) : String :=
  Markup.escaped (Assoc.get? c.properties key) default

/-- A property of a component has something to show. -/
def Component.shows (c : Component) (key : String) : Bool :=
  !(Markup.asText (Assoc.get? c.properties key) "").isEmpty

end PageCompiler
