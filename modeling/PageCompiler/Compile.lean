import PageCompiler.Fallback.Bundle
import PageCompiler.Generation
import PageCompiler.Policy.Apply
import PageCompiler.Repair

/-!
# `PageCompiler.Compile`: from text to artifact

`compile` checks a text, reads it, classifies its components and renders them by rules. Unless the
rules can do all, a generative service is asked for the rest. Its failures degrade the artifact and
never stop the compilation. Fragments are then merged, put together, and given canonical names.

The clock is outside: the time that a compilation takes is given to it.
-/

set_option autoImplicit false

namespace PageCompiler

/-- What a compilation works with. -/
structure Compiler where
  generator : Option Generator
  mender : Option Mender
  settings : CompilerSettings
  registry : Registry
  policy : Policy
  styleGuide : String
  /-- How long the compilation takes, in milliseconds. -/
  elapsed : Nat

/-- The compiler without services. -/
def Compiler.standard : Compiler :=
  { generator := none, mender := none, settings := .default, registry := .standard,
    policy := .default, styleGuide := Fallback.defaultStyleGuide, elapsed := 0 }

/-- What a compilation reports about itself. -/
structure Metrics where
  durationMs : Int
  strategy : Strategy
  ruleFragments : Nat
  fallbackFragments : Nat
  placeholders : Nat
  fallbackCalled : Bool
  fallbackFailure : Option String
  repairAttempted : Bool
  repairedCodes : List String
  normalized : Bool
  componentErrors : List MissingFields
  deriving Inhabited, Repr

/-- The result of a compilation. -/
structure Compilation where
  artifact : Artifact
  analysis : Analysis
  metrics : Metrics
  deriving Inhabited, Repr

namespace Compiler

/-- The components that the service is asked for, each once: those without a pattern, those with
complex words, and those that the rules could not render (`fallback_targets`). -/
def targets (cs : List Component) (a : Analysis) (o : RuleOutput) : List String :=
  let wanted := a.unresolvedComponents ++ a.complexComponents ++ o.failed
  ((cs.map Component.name).filter wanted.contains).eraseDups

/-- The markup that rules rendered, by component. The first section wins. -/
def ruleMarkup (o : RuleOutput) : Assoc String :=
  o.fragments.foldl
    (fun m (_, f) => if Assoc.has m f.component then m else Assoc.insert m f.component f.markup) []

/-- What is merged so far: fragments, components that nothing rendered, and components whose
fragment from the service is in place. -/
structure Merge where
  fragments : List Fragment
  unresolved : List String
  consumed : List String

/-- Places one component: by the service if it was asked for and not placed yet, else by a rule,
else by a placeholder. -/
def placeComponent (o : RuleOutput) (bundle : Option Bundle) (wanted : List String) (m : Merge)
    (c : Component) : Merge :=
  let fromService := if wanted.contains c.name then bundle.bind fun b => b.get? c.name else none
  match fromService, m.consumed.contains c.name, o.fragment? c with
  | some f, false, _ =>
    { m with fragments := m.fragments ++ [f], consumed := c.name :: m.consumed }
  | _, _, some f => { m with fragments := m.fragments ++ [f] }
  | _, _, none =>
    { m with fragments := m.fragments ++ [Assembly.placeholder c],
             unresolved := m.unresolved ++ [c.name] }

/-- The fragments of an artifact in order, and the components that nothing rendered
(`merge_fragments`). -/
def mergeFragments (cs : List Component) (strategy : Strategy) (o : RuleOutput)
    (bundle : Option Bundle) (wanted : List String) : List Fragment × List String :=
  match bundle, strategy with
  | some b, .manualOnly =>
    (b.fragments, ((cs.map Component.name).filter fun name => (b.get? name).isNone).eraseDups)
  | _, _ =>
    let start : Merge := { fragments := [], unresolved := [], consumed := [] }
    let m := cs.foldl (placeComponent o bundle wanted) start
    let declared := cs.map Component.name
    let extra := ((bundle.map Bundle.fragments).getD []).filter fun f =>
      !declared.contains f.component
    (m.fragments ++ extra, m.unresolved.eraseDups)

/-- What came of asking the service. -/
structure FallbackOutcome where
  called : Bool
  failure : Option String
  bundle : Option Bundle

/-- Asks the service for what the rules leave over, unless they leave nothing. -/
def askService (c : Compiler) (text : String) (a : Analysis) (o : RuleOutput)
    (wanted : List String) : CompileM FallbackOutcome := do
  match a.strategy, c.generator with
  | .automatic, _ => return { called := false, failure := none, bundle := none }
  | _, none => return { called := false, failure := some "no_backend", bundle := none }
  | _, some generator =>
    let request := Fallback.request text (ruleMarkup o) wanted c.styleGuide c.settings
    let timeout := c.settings.fallbackTimeout
    modify fun j => { j with calls := j.calls ++ [.generation (request, timeout)] }
    match generator request timeout with
    | .crashed message => throw (.crashed message)
    | .failed e => return { called := true, failure := some e.reason, bundle := none }
    | .text reply =>
      match Bundle.read reply with
      | .error e => return { called := true, failure := some e.reason, bundle := none }
      | .ok b => return { called := true, failure := none, bundle := some b }

/-- Gives an artifact its canonical names, if no two members would be merged. The answer says
whether it did. -/
def canonicalize (p : Policy) (a : Artifact) : CompileM (Artifact × Bool) := do
  match p.apply a with
  | .ok a => return (a, true)
  | .error (.template e) => throw (.template e)
  | .error (.conflict pairs) =>
    CompileM.log "consistency_conflict"
      [("conflicts", .list (pairs.map fun (old, target) => Value.texts [old, target])),
       ("message", .text (PolicyError.conflict pairs).message)]
    return (a, false)

/-- The number of fragments from a source. -/
def countFrom (source : Source) (fragments : List Fragment) : Nat :=
  fragments.countP fun f => f.source == source

/-- Compiles a text (`compile_apml`). -/
def compile (c : Compiler) (text : String) : CompileM Compilation := do
  let (usable, repaired) ← Repair.run text c.mender c.settings
  let document ← CompileM.orFail .ofRead (Document.read usable)
  let analysis ← CompileM.orFail .analysis (Analysis.classify c.registry document)
  let output := RuleOutput.generate c.registry analysis document
  modify fun j => { j with events := j.events ++ output.errors.map RuleOutput.errorEvent }
  let components := document.components
  let wanted := targets components analysis output
  let asked ← c.askService usable analysis output wanted
  if let some reason := asked.failure then
    CompileM.log "fallback_degraded"
      [("strategy", .text analysis.strategy.name), ("reason", .text reason)]
  let (fragments, unresolved) :=
    mergeFragments components analysis.strategy output asked.bundle wanted
  let assembled ← CompileM.orFail .kind
    (Artifact.assemble document fragments analysis.strategy asked.failure.isSome unresolved
      c.registry ((asked.bundle.map Bundle.methods).getD "")
      ((asked.bundle.map Bundle.style).getD ""))
  let (artifact, normalized) ← canonicalize c.policy assembled
  let metrics : Metrics :=
    { durationMs := c.elapsed, strategy := analysis.strategy,
      ruleFragments := countFrom .rule fragments,
      fallbackFragments := countFrom .fallback fragments,
      placeholders := countFrom .placeholder fragments,
      fallbackCalled := asked.called, fallbackFailure := asked.failure,
      repairAttempted := !repaired.isEmpty, repairedCodes := repaired.map Issue.code,
      normalized, componentErrors := output.errors }
  CompileM.log "compile_done"
    [("strategy", .text metrics.strategy.name), ("degraded", .bool artifact.degraded),
     ("duration_ms", .int metrics.durationMs), ("rule_fragments", .int metrics.ruleFragments),
     ("fallback_fragments", .int metrics.fallbackFragments),
     ("placeholders", .int metrics.placeholders),
     ("unresolved", Value.texts artifact.unresolved)]
  return { artifact, analysis, metrics }

/-- The outcome of compiling a text, and what was done besides. -/
def run (c : Compiler) (text : String) : Except CompileError Compilation × Journal :=
  CompileM.start (c.compile text)

end Compiler

end PageCompiler
