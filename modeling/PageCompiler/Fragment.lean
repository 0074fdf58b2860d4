import PageCompiler.Value

/-!
# `PageCompiler.Fragment`: the markup of one component

A fragment is the markup of one component, where it came from, and the state that the markup
expects to exist.
-/

set_option autoImplicit false

namespace PageCompiler

/-- Where the markup of a component came from. -/
inductive Source where
  | rule
  | fallback
  | placeholder
  deriving DecidableEq, Inhabited, Repr

/-- The name under which a source is reported. -/
def Source.name : Source → String
  | .rule => "rule"
  | .fallback => "fallback"
  | .placeholder => "placeholder"

/-- The markup of one component. -/
structure Fragment where
  component : String
  markup : String
  source : Source
  /-- The pattern that rendered it. -/
  patternId : Option String
  /-- The state it expects to exist, in order. -/
  state : Fields
  deriving Inhabited, Repr

end PageCompiler
