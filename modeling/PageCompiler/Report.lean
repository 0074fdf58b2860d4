import PageCompiler.Compile

/-!
# `PageCompiler.Report`: what a compilation hands out as data

Artifacts, analyses and metrics as values, with the fields under which other programs find them.
-/

set_option autoImplicit false

namespace PageCompiler

/-- An artifact as a value. -/
def Artifact.toValue (a : Artifact) : Value :=
  .map
    [("title", .text a.title), ("markup", .text a.markup), ("script", .text a.script),
     ("style", .text a.style), ("degraded", .bool a.degraded),
     ("strategy_used", .text a.strategyUsed.name), ("unresolved", Value.texts a.unresolved)]

/-- What is known about a component as a value. -/
def Classification.toValue (c : Classification) : Value :=
  .map
    [("component", .text c.component), ("section", .text c.inSection),
     ("declared_type", Value.ofText? c.declaredType), ("pattern_id", Value.ofText? c.patternId),
     ("match", Value.ofText? (c.resolved.map fun r => r.2.name)),
     ("complexity_hits", Value.texts c.complexityHits)]

/-- What is known about a document as a value. -/
def Analysis.toValue (a : Analysis) : Value :=
  .map
    [("known_patterns", Value.texts a.knownPatterns),
     ("unknown_patterns", Value.texts a.unknownPatterns), ("strategy", .text a.strategy.name),
     ("complexity_hits", Value.texts a.complexityHits),
     ("classifications", .list (a.classifications.map Classification.toValue))]

/-- A component that lacks fields as a value. -/
def MissingFields.toValue (e : MissingFields) : Value :=
  .map
    [("component", .text e.component), ("pattern_id", .text e.patternId),
     ("missing_fields", Value.texts e.fields), ("message", .text e.message)]

/-- Metrics as a value. -/
def Metrics.toValue (m : Metrics) : Value :=
  .map
    [("duration_ms", .int m.durationMs), ("strategy", .text m.strategy.name),
     ("rule_fragment_count", .int m.ruleFragments),
     ("fallback_fragment_count", .int m.fallbackFragments),
     ("placeholder_count", .int m.placeholders), ("fallback_called", .bool m.fallbackCalled),
     ("fallback_failure", Value.ofText? m.fallbackFailure),
     ("repair_attempted", .bool m.repairAttempted),
     ("repaired_issue_codes", Value.texts m.repairedCodes), ("normalized", .bool m.normalized),
     ("component_errors", .list (m.componentErrors.map MissingFields.toValue))]

/-- The result of a compilation as fields. -/
def Compilation.toFields (c : Compilation) : Fields :=
  [("artifact", c.artifact.toValue), ("analysis", c.analysis.toValue),
   ("metrics", c.metrics.toValue)]

end PageCompiler
