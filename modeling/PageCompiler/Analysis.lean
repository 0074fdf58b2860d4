import PageCompiler.Keyword
import PageCompiler.Pattern.Registry

/-!
# `PageCompiler.Analysis`: which pattern a component takes

A component takes the pattern it names. If it names none of the registry, it takes the first
pattern of which a keyword occurs in its text. Words that announce something complex are noted.
From both follows the strategy for the whole document: without any pattern all is left to others,
with patterns and complex words the work is shared, and else the rules do it all.
-/

set_option autoImplicit false

namespace PageCompiler

/-- How a document is compiled. -/
inductive Strategy where
  | automatic
  | hybrid
  | manualOnly
  deriving DecidableEq, Inhabited, Repr

/-- The name under which a strategy is reported. -/
def Strategy.name : Strategy → String
  | .automatic => "automatic"
  | .hybrid => "hybrid"
  | .manualOnly => "manual_only"

/-- The strategy of a name. -/
def Strategy.ofName? (name : String) : Option Strategy :=
  [Strategy.automatic, .hybrid, .manualOnly].find? fun s => s.name == name

/-- How a component came to its pattern. -/
inductive MatchKind where
  | exact
  | semantic
  deriving DecidableEq, Repr

/-- The name under which a way to a pattern is reported. -/
def MatchKind.name : MatchKind → String
  | .exact => "exact"
  | .semantic => "semantic"

/-- What is known about one component. -/
structure Classification where
  component : String
  inSection : String
  declaredType : Option String
  /-- The pattern it takes, and how it came to it. -/
  resolved : Option (String × MatchKind)
  complexityHits : List String
  deriving DecidableEq, Inhabited, Repr

/-- The pattern a component takes. -/
def Classification.patternId (c : Classification) : Option String :=
  c.resolved.map (·.1)

/-- What is known about a document. -/
structure Analysis where
  /-- The patterns taken, in the order of their first use. -/
  knownPatterns : List String
  /-- The types that no pattern answers to, in the order of their first use. -/
  unknownPatterns : List String
  strategy : Strategy
  /-- The complex words, in the order of their first use. -/
  complexityHits : List String
  classifications : List Classification
  deriving DecidableEq, Inhabited, Repr

/-- A component without text cannot be analysed. -/
structure AnalysisError where
  component : String
  deriving DecidableEq, Repr

/-- What is said about a component without text. -/
def AnalysisError.message (e : AnalysisError) : String :=
  "Component '" ++ e.component ++ "' has no raw text"

/-- The declared type of a component, or its name. -/
def Component.kind (c : Component) : String :=
  match c.patternName with
  | some name => Markup.orElse name c.name
  | none => c.name

namespace Analysis

/-- Words that announce something complex. -/
def complexityKeywords : List String :=
  ["custom", "advanced", "interactive", "dynamic", "api", "websocket"]

/-- The first pattern of which a keyword occurs in a text. -/
def semanticMatch? (r : Registry) (text : String) : Option String :=
  (r.patterns.find? fun p => p.keywords.any fun k => Keyword.occursIn k text).map Pattern.id

/-- The pattern that a component takes. -/
def resolve (r : Registry) (c : Component) : Option (String × MatchKind) :=
  let semantic := (semanticMatch? r c.rawText).map fun id => (id, MatchKind.semantic)
  match c.patternName with
  | some name => if r.has name then some (name, .exact) else semantic
  | none => semantic

/-- What is known about one component. -/
def classifyComponent (r : Registry) (c : Component) : Except AnalysisError Classification :=
  if c.rawText.isEmpty then .error { component := c.name }
  else
    .ok
      { component := c.name, inSection := c.inSection, declaredType := c.patternName,
        resolved := resolve r c,
        complexityHits := complexityKeywords.filter fun k => Keyword.occursIn k c.rawText }

/-- The strategy that follows from the patterns taken and the complex words (`decide_strategy`). -/
def strategyFor (known hits : List String) : Strategy :=
  if known.isEmpty then .manualOnly else if hits.isEmpty then .automatic else .hybrid

/-- The type that no pattern answers to, if a component took none. -/
def unknownType? (c : Classification) : Option String :=
  match c.resolved with
  | some _ => none
  | none => some (match c.declaredType with
    | some name => Markup.orElse name c.component
    | none => c.component)

/-- What is known about a document, from what is known about its components. -/
def ofClassifications (cs : List Classification) : Analysis :=
  let known := (cs.filterMap Classification.patternId).eraseDups
  let hits := (cs.flatMap Classification.complexityHits).eraseDups
  { knownPatterns := known, unknownPatterns := (cs.filterMap unknownType?).eraseDups,
    strategy := strategyFor known hits, complexityHits := hits, classifications := cs }

/-- Analyses a document. -/
def classify (r : Registry) (d : Document) : Except AnalysisError Analysis :=
  (d.components.mapM (classifyComponent r)).map ofClassifications

/-- The components that took no pattern. -/
def unresolvedComponents (a : Analysis) : List String :=
  (a.classifications.filter fun c => c.resolved.isNone).map Classification.component

/-- The components with complex words. -/
def complexComponents (a : Analysis) : List String :=
  (a.classifications.filter fun c => !c.complexityHits.isEmpty).map Classification.component

/-- The pattern of the first component with a name in a section. -/
def patternFor (a : Analysis) (component inSection : String) : Option String :=
  (a.classifications.find? fun c => c.component == component && c.inSection == inSection).bind
    Classification.patternId

/-- The pattern of the first component with a name in a section, if it is one of those that the
analysis counts as taken. -/
def knownPatternFor (a : Analysis) (component inSection : String) : Option String :=
  (a.patternFor component inSection).filter a.knownPatterns.contains

end Analysis

end PageCompiler
