import PageCompiler.Issue
import PageCompiler.Settings

/-!
# `PageCompiler.Service.Basic`: generative services

A generative service mends a text or renders what no rule renders. For the compiler it is a pair
of functions from requests to replies. A reply is a text, a failure that the compiler copes with,
or a breakdown that it hands on.
-/

set_option autoImplicit false

namespace PageCompiler

/-- A call that a service could not answer. -/
structure GenerationError where
  reason : String
  detail : Option String
  deriving DecidableEq, Repr

/-- What is said about a call that a service could not answer. -/
def GenerationError.message (e : GenerationError) : String :=
  match e.detail with
  | some detail => if detail.isEmpty then e.reason else e.reason ++ ": " ++ detail
  | none => e.reason

/-- A request to mend a text. -/
structure RepairRequest where
  prompt : String
  maxTokens : Int
  directives : String
  issues : List Issue
  deriving Repr

/-- A request for the markup of components that no rule renders. -/
structure FallbackRequest where
  prompt : String
  maxTokens : Int
  directives : String
  documentText : String
  /-- The markup that rules have rendered, by component. -/
  ruleFragments : Assoc String
  unresolved : List String
  styleGuide : String
  deriving Repr

/-- What comes of a call. -/
inductive Reply where
  | text (s : String)
  | failed (e : GenerationError)
  | crashed (message : String)
  deriving DecidableEq, Repr

/-- A service that renders markup. -/
abbrev Generator := FallbackRequest → Value → Reply

/-- A service that mends texts. -/
abbrev Mender := RepairRequest → Value → Reply

end PageCompiler
