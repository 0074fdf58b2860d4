import PageCompiler.Json.Text

/-!
# `PageCompiler.Log`: what happened, in order

An event has a name and fields. Its line is a compact record with sorted keys.
-/

set_option autoImplicit false

namespace PageCompiler

/-- Something that happened. -/
structure Event where
  name : String
  fields : Fields
  deriving Inhabited, Repr

/-- The line of an event. -/
def Event.line (e : Event) : String :=
  Json.record (("event", .text e.name) :: e.fields)

/-- A list of texts as a value. -/
def Value.texts (xs : List String) : Value :=
  .list (xs.map .text)

/-- A text that may be missing as a value. -/
def Value.ofText? : Option String → Value
  | some s => .text s
  | none => .null

end PageCompiler
