import Mathlib.Algebra.Ring.Nat
import Mathlib.Data.List.Nodup
import Mathlib.Data.List.Induction

/-!
# `PageCompiler.Proofs.Distinct`: lists without repetitions

`List.eraseDups` keeps the first of equal members. What it does to a list that grows at its end is
one equation (`eraseDups_concat`), and the facts below follow from it by induction on the end of the
list.
-/

set_option autoImplicit false

namespace PageCompiler

section Distinct

variable {α : Type} [BEq α] [LawfulBEq α]

/-- A member is kept if it does not stand in front. -/
theorem eraseDups_concat (l : List α) (a : α) :
    (l ++ [a]).eraseDups = if a ∈ l then l.eraseDups else l.eraseDups ++ [a] := by
  rw [List.eraseDups_append, List.removeAll, List.filter_cons]
  by_cases ha : a ∈ l
  · simp [ha]
  · simp [ha, List.eraseDups_cons]

theorem nodup_eraseDups (l : List α) : l.eraseDups.Nodup := by
  induction l using List.reverseRecOn with
  | nil => exact List.nodup_nil
  | append_singleton l a ih =>
    rw [eraseDups_concat]
    split
    · exact ih
    next ha =>
      rw [← List.concat_eq_append]
      exact ih.concat (mt List.mem_eraseDups.1 ha)

/-- Nothing is dropped from a list without repetitions. -/
theorem eraseDups_of_nodup {l : List α} (h : l.Nodup) : l.eraseDups = l := by
  induction l using List.reverseRecOn with
  | nil => rfl
  | append_singleton l a ih =>
    rw [← List.concat_eq_append, List.nodup_concat] at h
    rw [eraseDups_concat, if_neg h.1, ih h.2]

/-- The first of equal members are kept. -/
theorem eraseDups_filter (p : α → Bool) (l : List α) :
    (l.filter p).eraseDups = l.eraseDups.filter p := by
  induction l using List.reverseRecOn with
  | nil => rfl
  | append_singleton l a ih =>
    rw [eraseDups_concat, List.filter_append]
    cases ha : p a with
    | false =>
      rw [List.filter_cons_of_neg (by simp [ha]), List.filter_nil, List.append_nil, ih]
      split
      · rfl
      · simp [ha]
    | true =>
      have hsame : a ∈ l.filter p ↔ a ∈ l := by simp [ha]
      rw [List.filter_cons_of_pos ha, List.filter_nil, eraseDups_concat, ih]
      simp only [hsame]
      split
      · rfl
      · simp [ha]

/-- A sum over a list without repetitions. -/
theorem sum_map_eraseDups_le (f : α → Nat) (l : List α) :
    (l.eraseDups.map f).sum ≤ (l.map f).sum := by
  induction l using List.reverseRecOn with
  | nil => exact Nat.le_refl _
  | append_singleton l a ih =>
    rw [eraseDups_concat, List.map_append, List.sum_append]
    split
    · omega
    · rw [List.map_append, List.sum_append]
      omega

/-- What is kept stands in the order in which it stood first. -/
theorem pairwise_idxOf_eraseDups (l : List α) :
    l.eraseDups.Pairwise fun a b => l.idxOf a < l.idxOf b := by
  induction l using List.reverseRecOn with
  | nil => exact List.Pairwise.nil
  | append_singleton l a ih =>
    have hfront : ∀ {b : α}, b ∈ l.eraseDups → (l ++ [a]).idxOf b = l.idxOf b := by
      intro b hb
      exact List.idxOf_append_of_mem (List.mem_eraseDups.1 hb)
    have hkept : l.eraseDups.Pairwise fun b c => (l ++ [a]).idxOf b < (l ++ [a]).idxOf c := by
      refine ih.imp_of_mem fun hb hc hlt => ?_
      rw [hfront hb, hfront hc]
      exact hlt
    rw [eraseDups_concat]
    split
    · exact hkept
    next ha =>
      refine List.pairwise_append.2 ⟨hkept, List.pairwise_singleton _ _, ?_⟩
      intro b hb c hc
      have hlt : l.idxOf b < l.length := List.idxOf_lt_length_iff.2 (List.mem_eraseDups.1 hb)
      -- The new member stands behind all others.
      rw [List.mem_singleton.1 hc, hfront hb, List.idxOf_append_of_notMem ha]
      omega

end Distinct

end PageCompiler
