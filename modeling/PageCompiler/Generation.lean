import PageCompiler.Journal

/-!
# `PageCompiler.Generation`: rendering by rules

Every component that took a pattern is rendered by its rule. A component that does not give what
its pattern requires is reported, and the others are still rendered.
-/

set_option autoImplicit false

namespace PageCompiler

/-- What the rules rendered. -/
structure RuleOutput where
  /-- Fragments by section and component, in the order of the document. -/
  fragments : Assoc Fragment
  errors : List MissingFields
  deriving Inhabited, Repr

namespace RuleOutput

/-- The key of a component's fragment. -/
def key (inSection component : String) : String :=
  inSection ++ "." ++ component

/-- The fragment of a component. -/
def fragment? (o : RuleOutput) (c : Component) : Option Fragment :=
  Assoc.get? o.fragments (key c.inSection c.name)

/-- The components that could not be rendered. -/
def failed (o : RuleOutput) : List String :=
  o.errors.map MissingFields.component

/-- The outcome of the rule for a component, if it took a pattern that the analysis knows. An
analysis by a registry knows only patterns of that registry, so the look-up finds the rule. -/
def attempt? (r : Registry) (a : Analysis) (c : Component) :
    Option (Except MissingFields Fragment) := do
  let id ← a.knownPatternFor c.name c.inSection
  let pattern ← r.get? id
  return pattern.generate c

/-- What the rules have rendered so far, with one more component. -/
def add (r : Registry) (a : Analysis) (o : RuleOutput) (c : Component) : RuleOutput :=
  match attempt? r a c with
  | none => o
  | some (.error e) => { o with errors := o.errors ++ [e] }
  | some (.ok f) => { o with fragments := Assoc.insert o.fragments (key c.inSection c.name) f }

/-- Renders the components of a document (`generate_fragments`). -/
def generate (r : Registry) (a : Analysis) (d : Document) : RuleOutput :=
  d.components.foldl (add r a) { fragments := [], errors := [] }

/-- The event of a component that could not be rendered. -/
def errorEvent (e : MissingFields) : Event :=
  { name := "component_error",
    fields := [("component", .text e.component), ("pattern_id", .text e.patternId),
               ("missing_fields", Value.texts e.fields)] }

end RuleOutput

end PageCompiler
