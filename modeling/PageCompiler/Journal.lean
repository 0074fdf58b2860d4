import PageCompiler.Analysis
import PageCompiler.Artifact.Assembly
import PageCompiler.Log
import PageCompiler.Policy.Template
import PageCompiler.Service.Basic

/-!
# `PageCompiler.Journal`: what a compilation does besides its result

A compilation calls services and logs events. Both are kept in a journal, in order, also when the
compilation fails.
-/

set_option autoImplicit false

namespace PageCompiler

/-- A call of a service: a request and the time that the answer may take. -/
inductive Journal.Call where
  /-- A text is to be mended. -/
  | repair (call : RepairRequest × Value)
  /-- Components are to be rendered. -/
  | generation (call : FallbackRequest × Value)
  deriving Repr

/-- Calls and events of a compilation, each in order. -/
structure Journal where
  events : List Event
  calls : List Journal.Call
  deriving Inhabited, Repr

namespace Journal

/-- Nothing has happened. -/
def empty : Journal :=
  { events := [], calls := [] }

/-- The calls of the service that mends texts. -/
def repairs (j : Journal) : List (RepairRequest × Value) :=
  j.calls.filterMap fun
    | .repair call => some call
    | .generation _ => none

/-- The calls of the service that renders components. -/
def generations (j : Journal) : List (FallbackRequest × Value) :=
  j.calls.filterMap fun
    | .repair _ => none
    | .generation call => some call

end Journal

/-- Why a compilation fails. -/
inductive CompileError where
  /-- The text has defects that nothing can mend. -/
  | rejected (summary : String) (issues : List Issue)
  /-- The text has defects that were not mended. -/
  | unrepairable (summary : String) (issues remaining : List Issue)
  | malformed (e : ParseError)
  | numeral (e : NumeralTooLong)
  | analysis (e : AnalysisError)
  | kind (e : KindError)
  | template (e : TemplateError)
  /-- A service broke down. -/
  | crashed (message : String)
  deriving DecidableEq, Repr

namespace CompileError

/-- What is said about a failed compilation. -/
def message : CompileError → String
  | .rejected summary _ | .unrepairable summary _ _ => summary
  | .malformed e => e.message
  | .numeral e => e.message
  | .analysis e => e.message
  | .kind e => e.message
  | .template e => e.message
  | .crashed message => message

/-- The name under which a failure is reported. -/
def typeName : CompileError → String
  | .rejected _ _ => "DocumentValidationError"
  | .unrepairable _ _ _ => "UnrepairableDocumentError"
  | .malformed _ => "ParseError"
  | .numeral _ => "ValueError"
  | .analysis _ => "AnalysisError"
  | .kind _ => "TypeError"
  | .template e => e.typeName
  | .crashed _ => "RuntimeError"

/-- What a report says about a failure beyond its message. -/
def detail : CompileError → Fields
  | .rejected _ issues => [("issues", .list (issues.map Issue.toValue))]
  | .unrepairable _ issues remaining =>
    [("issues", .list (issues.map Issue.toValue)),
     ("remaining_issues", .list (remaining.map Issue.toValue))]
  | .malformed e =>
    [("reason", .text e.reason.code),
     ("line_number", (e.line.map fun n => Value.int n).getD .null),
     ("section", Value.ofText? e.inSection)]
  | _ => []

/-- The failure of a text that cannot be read. -/
def ofRead : ReadError → CompileError
  | .malformed e => .malformed e
  | .numeral e => .numeral e

end CompileError

/-- A step of a compilation. -/
abbrev CompileM := ExceptT CompileError (StateM Journal)

namespace CompileM

/-- Logs an event. -/
def log (name : String) (fields : Fields) : CompileM Unit :=
  modify fun j => { j with events := j.events ++ [{ name, fields }] }

/-- Hands on a failure of another kind. -/
def orFail {ε α : Type} (f : ε → CompileError) : Except ε α → CompileM α
  | .ok a => pure a
  | .error e => throw (f e)

/-- The outcome of a compilation that starts from an empty journal, and its journal. -/
def start {α : Type} (m : CompileM α) : Except CompileError α × Journal :=
  (ExceptT.run m).run Journal.empty

end CompileM

end PageCompiler
