import Mathlib.Algebra.Ring.Nat
import PageCompiler.Server.Stats

/-!
# `PageCompiler.Proofs.Server.Stats`: what counting does to the numbers

A tally is seen through the count of each name. As long as its names are in order, counting one name
changes the count of this name only (`Tally.count_add`), and the names stay in order. `Stats.Gains`
and `Stats.GainsFailure` say counter by counter what a compilation and a failure add.
-/

set_option autoImplicit false

namespace PageCompiler

namespace Tally

/-- The count under a name. -/
def count (t : Tally) (name : String) : Nat :=
  (Assoc.get? t name).getD 0

/-- The names of a tally stand in order, each of them once. -/
def Ordered (t : Tally) : Prop :=
  (Assoc.keys t).Pairwise (· < ·)

theorem count_cons (k : String) (n : Nat) (t : Tally) (name : String) :
    count ((k, n) :: t) name = if k = name then n else count t name := by
  by_cases h : k = name
  · simp [count, Assoc.get?, h]
  · simp [count, Assoc.get?, h]

theorem count_eq_zero {t : Tally} {name : String} (h : name ∉ Assoc.keys t) : count t name = 0 := by
  induction t with
  | nil => rfl
  | cons entry t ih =>
    rw [Assoc.keys, List.map_cons, List.mem_cons, not_or] at h
    rw [count_cons, if_neg (Ne.symm h.1), ih h.2]

theorem ordered_nil : Ordered [] := List.Pairwise.nil

theorem ordered_cons {k : String} {n : Nat} {t : Tally} :
    Ordered ((k, n) :: t) ↔ (∀ name ∈ Assoc.keys t, k < name) ∧ Ordered t := by
  rw [Ordered, Assoc.keys, List.map_cons, List.pairwise_cons]
  rfl

/-- Counting adds only the counted name. -/
theorem mem_keys_add {name other : String} {t : Tally} :
    other ∈ Assoc.keys (add name t) ↔ other = name ∨ other ∈ Assoc.keys t := by
  fun_induction add name t with
  | case1 => simp [Assoc.keys]
  | case2 k n t h => simp [Assoc.keys, beq_iff_eq.1 h]
  | case3 k n t h hlt => simp [Assoc.keys]
  | case4 k n t h hlt ih =>
    simp only [Assoc.keys, List.map_cons, List.mem_cons] at ih ⊢
    rw [ih, or_left_comm]

/-- Counting keeps the names in order. -/
theorem ordered_add {t : Tally} (h : Ordered t) (name : String) : Ordered (add name t) := by
  fun_induction add name t with
  | case1 => simp [Ordered, Assoc.keys]
  | case2 k n t heq => exact ordered_cons.2 (ordered_cons.1 h)
  | case3 k n t heq hlt =>
    refine ordered_cons.2 ⟨?_, h⟩
    intro other hother
    obtain rfl | hmem := List.mem_cons.1 hother
    · exact hlt
    · exact String.lt_trans hlt ((ordered_cons.1 h).1 other hmem)
  | case4 k n t hne hlt ih =>
    -- The new name is behind the first one, since it is neither this name nor before it.
    obtain ⟨hfirst, hrest⟩ := ordered_cons.1 h
    refine ordered_cons.2 ⟨?_, ih hrest⟩
    intro other hother
    obtain rfl | hmem := mem_keys_add.1 hother
    · exact Std.lt_of_le_of_ne hlt fun heq => hne (beq_iff_eq.2 heq.symm)
    · exact hfirst other hmem

/-- Counting a name adds one to its own count and nothing to the others. -/
theorem count_add {t : Tally} (h : Ordered t) (name other : String) :
    count (add name t) other = count t other + if other = name then 1 else 0 := by
  fun_induction add name t with
  | case1 =>
    rw [count_cons]
    simp [count, Assoc.get?, eq_comm]
  | case2 k n t heq =>
    rw [count_cons, count_cons, beq_iff_eq.1 heq]
    by_cases hother : k = other
    · simp [hother]
    · simp [hother, Ne.symm hother]
  | case3 k n t heq hlt =>
    rw [count_cons]
    by_cases hother : name = other
    · -- A name that stands before the first one is not in the tally yet.
      have hnew : name ∉ Assoc.keys ((k, n) :: t) := by
        intro hmem
        obtain rfl | hmem := List.mem_cons.1 hmem
        · exact String.lt_irrefl _ hlt
        · exact String.lt_irrefl _ (String.lt_trans hlt ((ordered_cons.1 h).1 name hmem))
      rw [if_pos hother, ← hother, count_eq_zero hnew, if_pos rfl]
    · rw [if_neg hother, if_neg (Ne.symm hother), Nat.add_zero]
  | case4 k n t hne hlt ih =>
    rw [count_cons, count_cons, ih (ordered_cons.1 h).2]
    by_cases hother : k = other
    · have hname : other ≠ name := fun heq => hne (beq_iff_eq.2 (hother.trans heq).symm)
      rw [if_pos hother, if_pos hother, if_neg hname, Nat.add_zero]
    · rw [if_neg hother, if_neg hother]

/-- Counting adds one to the total. -/
theorem total_add (name : String) (t : Tally) : total (add name t) = total t + 1 := by
  fun_induction add name t with
  | case1 => rfl
  | case2 k n t h =>
    show n + 1 + total t = n + total t + 1
    omega
  | case3 k n t h hlt =>
    show 1 + total ((k, n) :: t) = _
    omega
  | case4 k n t h hlt ih =>
    show n + total (add name t) = n + total t + 1
    omega

end Tally

namespace Stats

/-- Both tallies are in order. -/
structure Ordered (s : Stats) : Prop where
  strategies : s.strategies.Ordered
  failures : s.failures.Ordered

/-- Numbers that count one compilation more. -/
structure Gains (s : Stats) (m : Metrics) (degraded : Bool) (s' : Stats) : Prop where
  compiles : s'.compiles = s.compiles + 1
  degraded : s'.degraded = s.degraded + degraded.toNat
  fallbackCalls : s'.fallbackCalls = s.fallbackCalls + m.fallbackCalled.toNat
  repairAttempts : s'.repairAttempts = s.repairAttempts + m.repairAttempted.toNat
  normalizationSkipped :
    s'.normalizationSkipped = s.normalizationSkipped + (!m.normalized).toNat
  totalDurationMs : s'.totalDurationMs = s.totalDurationMs + m.durationMs
  strategies : ∀ name, s'.strategies.count name =
    s.strategies.count name + if name = m.strategy.name then 1 else 0
  failures : s'.failures = s.failures

/-- Numbers that count one failure more, under a code. -/
structure GainsFailure (s : Stats) (code : String) (s' : Stats) : Prop where
  failures : ∀ name, s'.failures.count name = s.failures.count name + if name = code then 1 else 0
  /-- Apart from the failures nothing has changed. -/
  others : { s' with failures := s.failures } = s

/-- How many compilations and failures are counted. -/
def counted (s : Stats) : Nat :=
  s.compiles + s.failures.total

theorem counted_record (s : Stats) (m : Metrics) (degraded : Bool) :
    (s.record m degraded).counted = s.counted + 1 :=
  Nat.add_right_comm s.compiles 1 s.failures.total

theorem counted_recordFailure (s : Stats) (code : String) :
    (s.recordFailure code).counted = s.counted + 1 :=
  congrArg (s.compiles + ·) (Tally.total_add code s.failures)

theorem ordered_empty : Ordered empty := ⟨Tally.ordered_nil, Tally.ordered_nil⟩

variable {s : Stats} (h : s.Ordered)
include h

theorem Ordered.record (m : Metrics) (degraded : Bool) : (s.record m degraded).Ordered :=
  ⟨Tally.ordered_add h.strategies _, h.failures⟩

theorem Ordered.recordFailure (code : String) : (s.recordFailure code).Ordered :=
  ⟨h.strategies, Tally.ordered_add h.failures _⟩

theorem gains_record (m : Metrics) (degraded : Bool) : s.Gains m degraded (s.record m degraded) :=
  { compiles := rfl, degraded := rfl, fallbackCalls := rfl, repairAttempts := rfl,
    normalizationSkipped := rfl, totalDurationMs := rfl,
    strategies := Tally.count_add h.strategies _, failures := rfl }

theorem gainsFailure_recordFailure (code : String) : s.GainsFailure code (s.recordFailure code) :=
  { failures := Tally.count_add h.failures _, others := rfl }

end Stats

end PageCompiler
