import PageCompiler.Decimal.Quotient
import PageCompiler.Report

/-!
# `PageCompiler.Server.Stats`: what happened so far, in numbers

Each compilation and each failure is counted. A tally counts by name and is kept in the order of the
names, so that it does not show in which order things happened.
-/

set_option autoImplicit false

namespace PageCompiler

/-- Counts by name, in the order of the names. -/
abbrev Tally := List (String × Nat)

/-- Counts one more under a name. -/
def Tally.add (name : String) : Tally → Tally
  | [] => [(name, 1)]
  | (other, n) :: rest =>
    if name == other then (other, n + 1) :: rest
    else if name < other then (name, 1) :: (other, n) :: rest
    else (other, n) :: Tally.add name rest

/-- The sum of all counts. -/
def Tally.total (t : Tally) : Nat :=
  t.foldr (fun entry n => entry.2 + n) 0

/-- A tally as a value. -/
def Tally.toValue (t : Tally) : Value :=
  .map (t.map fun (name, n) => (name, .int n))

/-- What happened so far. -/
structure Stats where
  compiles : Nat
  degraded : Nat
  fallbackCalls : Nat
  repairAttempts : Nat
  normalizationSkipped : Nat
  totalDurationMs : Int
  strategies : Tally
  failures : Tally
  deriving DecidableEq, Inhabited, Repr

namespace Stats

/-- Nothing happened. -/
def empty : Stats :=
  { compiles := 0, degraded := 0, fallbackCalls := 0, repairAttempts := 0,
    normalizationSkipped := 0, totalDurationMs := 0, strategies := [], failures := [] }

/-- Counts a compilation. -/
def record (s : Stats) (m : Metrics) (degraded : Bool) : Stats :=
  { s with
    compiles := s.compiles + 1,
    degraded := s.degraded + degraded.toNat,
    fallbackCalls := s.fallbackCalls + m.fallbackCalled.toNat,
    repairAttempts := s.repairAttempts + m.repairAttempted.toNat,
    normalizationSkipped := s.normalizationSkipped + (!m.normalized).toNat,
    totalDurationMs := s.totalDurationMs + m.durationMs,
    strategies := Tally.add m.strategy.name s.strategies }

/-- Counts a failure under its code (`record_failure`). -/
def recordFailure (s : Stats) (code : String) : Stats :=
  { s with failures := Tally.add code s.failures }

/-- The mean duration of a compilation in milliseconds. -/
def averageDurationMs (s : Stats) : Except Decimal.QuotientTooLarge Float :=
  Decimal.mean s.totalDurationMs s.compiles

/-- The numbers as fields. -/
def snapshot (s : Stats) : Except Decimal.QuotientTooLarge Fields := do
  let average ← s.averageDurationMs
  return [("compiles", .int s.compiles), ("degraded", .int s.degraded),
    ("fallback_calls", .int s.fallbackCalls), ("repair_attempts", .int s.repairAttempts),
    ("normalization_skipped", .int s.normalizationSkipped),
    ("average_duration_ms", .float average), ("strategies", s.strategies.toValue),
    ("failures", s.failures.toValue)]

end Stats

end PageCompiler
