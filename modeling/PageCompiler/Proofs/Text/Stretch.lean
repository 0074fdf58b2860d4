import Mathlib.Data.List.Infix
import PageCompiler.Proofs.Text.Scan

/-!
# `PageCompiler.Proofs.Text.Stretch`: stretches of a text

A stretch `y <:+: s` is a part of a text without gaps. A character that a stretch does not hold cuts
a text in two, and the stretch lies on one side of the cut (`infix_append_cons_iff`). So the
stretches of a text that was put together from parts are those of its parts. Edits that cannot start
inside of a stretch keep it (`Edited.infix_iff`), and leaving out whole lines makes no new ones
(`infix_of_scanFrom_lineWise`).
-/

set_option autoImplicit false

namespace PageCompiler.Text

variable {y s t : List Char} {d : Char}

/-- A stretch lies on one side of a character that it does not hold. -/
theorem infix_append_cons_iff {a b : List Char} (hne : y ≠ []) (hd : d ∉ y) :
    y <:+: a ++ d :: b ↔ y <:+: a ∨ y <:+: b := by
  constructor
  · rintro ⟨u, v, h⟩
    rw [List.append_assoc] at h
    rcases List.append_eq_append_iff.1 h with ⟨w, rfl, hw⟩ | ⟨w, rfl, hw⟩
    · rcases List.append_eq_append_iff.1 hw with ⟨x, rfl, -⟩ | ⟨x, hx, hrest⟩
      · exact .inl ⟨u, x, by simp⟩
      · cases x with
        | nil =>
          rw [List.append_nil] at hx
          exact .inl ⟨u, [], by simp [hx]⟩
        | cons e x =>
          obtain ⟨rfl, -⟩ := List.cons.inj hrest
          exact absurd (by simp [hx]) hd
    · cases w with
      | nil =>
        obtain ⟨e, y, rfl⟩ := List.exists_cons_of_ne_nil hne
        obtain ⟨rfl, -⟩ := List.cons.inj hw
        exact absurd (by simp) hd
      | cons e w =>
        obtain ⟨rfl, rfl⟩ := List.cons.inj hw
        exact .inr ⟨w, v, by simp⟩
  · rintro (h | h)
    · exact h.trans (List.prefix_append a _).isInfix
    · exact (List.infix_cons h).trans (List.suffix_append a _).isInfix

theorem infix_cons_iff_of_not_mem {b : List Char} (hne : y ≠ []) (hd : d ∉ y) :
    y <:+: d :: b ↔ y <:+: b := by
  have h := infix_append_cons_iff (a := []) (b := b) hne hd
  rw [List.nil_append] at h
  rw [h]
  refine or_iff_right_of_imp fun hnil => absurd ?_ hne
  exact List.eq_nil_of_infix_nil hnil

/-- A stretch does not start in a text that its first character is not in. -/
theorem infix_append_iff_of_not_mem {x : List Char} (hd : d ∉ x) :
    d :: y <:+: x ++ s ↔ d :: y <:+: s := by
  induction x with
  | nil => rfl
  | cons e x ih =>
    rw [List.mem_cons, not_or] at hd
    rw [List.cons_append, List.infix_cons_iff, ih hd.2]
    refine or_iff_right_of_imp fun hprefix => ?_
    obtain ⟨v, hv⟩ := hprefix
    exact absurd (List.cons.inj hv).1 hd.1

theorem not_infix_of_not_mem (hd : d ∉ s) : ¬d :: y <:+: s :=
  fun h => hd (h.subset List.mem_cons_self)

/-- The stretches of separated parts are those of the parts. -/
theorem infix_intercalate_iff {sep : List Char} {parts : List (List Char)} (hne : y ≠ [])
    (hsep : ∀ c ∈ sep, c ∉ y) (hsepne : sep ≠ []) :
    y <:+: sep.intercalate parts ↔ ∃ part ∈ parts, y <:+: part := by
  have hskip : ∀ {x u : List Char}, (∀ c ∈ x, c ∉ y) → (y <:+: x ++ u ↔ y <:+: u) := by
    intro x u hx
    induction x with
    | nil => rfl
    | cons c x ih =>
      obtain ⟨hc, hx⟩ := List.forall_mem_cons.1 hx
      rw [List.cons_append, infix_cons_iff_of_not_mem hne hc, ih hx]
  obtain ⟨c, sep', rfl⟩ := List.exists_cons_of_ne_nil hsepne
  obtain ⟨hc, hsep'⟩ := List.forall_mem_cons.1 hsep
  induction parts with
  | nil =>
    have hnil : ¬y <:+: [] := fun h => hne (List.eq_nil_of_infix_nil h)
    simpa using hnil
  | cons part parts ih =>
    cases parts with
    | nil => simp
    | cons next more =>
      rw [List.intercalate_cons_cons, List.append_assoc, List.cons_append,
        infix_append_cons_iff hne hc, hskip hsep']
      refine (or_congr_right ih).trans ?_
      simp

/-! ### Edits -/

/-- Edits of which none can start inside of a stretch keep it, and make no new one. -/
theorem Edited.infix_iff {allowed : Edit} {before : Option Char} (h : Edited allowed before s t)
    (hfirst : ∀ {before old new rest}, allowed before old new rest → d ∉ old ∧ d ∉ new)
    (hinside : ∀ a b, y = a ++ b → b ≠ [] → ∀ {old new rest},
      allowed (behind (some d) a) old new rest → ∀ u v, old ++ u ≠ b ++ v ∧ new ++ u ≠ b ++ v) :
    d :: y <:+: s ↔ d :: y <:+: t := by
  induction h with
  | nil => rfl
  | @keep before c s t h ih =>
    rw [List.infix_cons_iff, List.infix_cons_iff, ih]
    refine or_congr_left' fun _ => ?_
    constructor
    · rintro ⟨u, hu⟩
      obtain ⟨rfl, rfl⟩ := List.cons.inj hu
      obtain ⟨u', rfl, -⟩ := h.untouched fun a b hab hb => fun hold =>
        (hinside a b hab hb hold _ _).1
      exact ⟨u', rfl⟩
    · rintro ⟨u, hu⟩
      obtain ⟨rfl, rfl⟩ := List.cons.inj hu
      obtain ⟨u', rfl, -⟩ := h.untouched_new fun a b hab hb => fun hold =>
        (hinside a b hab hb hold _ _).2
      exact ⟨u', rfl⟩
  | swap before hold h ih =>
    obtain ⟨hold', hnew⟩ := hfirst hold
    rw [infix_append_iff_of_not_mem hold', infix_append_iff_of_not_mem hnew, ih]

/-! ### Leaving out lines -/

section LeftOut

variable {α : Type} {r : Recogniser α} {before : Option Char}

/-- Behind the start of a line nothing is left out up to the end of the line. -/
theorem prefix_of_scanFrom_lineWise (hr : LineWise r) (hnil : ∀ before, r before [] = none)
    (hbefore : atLineStart before = false) (hy : '\n' ∉ y)
    (h : y <+: scanFrom r (putFound fun _ => []) before s) : y <+: s := by
  induction y generalizing before s with
  | nil => exact List.nil_prefix
  | cons c y ih =>
    rw [List.mem_cons, not_or] at hy
    cases s with
    | nil =>
      rw [scanFrom_nil (hnil before)] at h
      exact absurd (List.prefix_nil.1 h) (by simp)
    | cons e s =>
      rw [scanFrom_plain (hr _ _ hbefore), putFound, List.singleton_append,
        List.cons_prefix_cons] at h
      obtain ⟨rfl, h⟩ := h
      have hstart : atLineStart (some c) = false := by
        rw [atLineStart, beq_eq_false_iff_ne]
        exact Ne.symm hy.1
      exact List.cons_prefix_cons.2 ⟨rfl, ih hstart hy.2 h⟩

/-- Leaving out what a recogniser accepts at the start of lines makes no new stretches on one
line. -/
theorem infix_of_scanFrom_lineWise (hr : LineWise r) (hnil : ∀ before, r before [] = none)
    (hfound : ∀ {before s a rest}, r before s = some (a, rest) → ∃ m, m ≠ [] ∧ s = m ++ rest)
    (hy : '\n' ∉ y) (hne : y ≠ []) (h : y <:+: scanFrom r (putFound fun _ => []) before s) :
    y <:+: s := by
  induction hn : s.length using Nat.strongRecOn generalizing s before with
  | ind n ih =>
    subst hn
    cases s with
    | nil =>
      rw [scanFrom_nil (hnil before)] at h
      exact h
    | cons c s =>
      cases hrec : r before (c :: s) with
      | none =>
        rw [scanFrom_plain hrec, putFound, List.singleton_append, List.infix_cons_iff] at h
        rcases h with h | h
        · obtain ⟨e, y, rfl⟩ := List.exists_cons_of_ne_nil hne
          rw [List.mem_cons, not_or] at hy
          obtain ⟨rfl, h⟩ := List.cons_prefix_cons.1 h
          have hstart : atLineStart (some e) = false := by
            rw [atLineStart, beq_eq_false_iff_ne]
            exact Ne.symm hy.1
          have hprefix := prefix_of_scanFrom_lineWise hr hnil hstart hy.2 h
          exact (List.cons_prefix_cons.2 ⟨rfl, hprefix⟩).isInfix
        · exact List.infix_cons (ih _ (by simp) h rfl)
      | some found =>
        obtain ⟨a, rest⟩ := found
        obtain ⟨m, hm, hs⟩ := hfound hrec
        have hlength : rest.length < (c :: s).length := by
          rw [hs, List.length_append]
          have hpos := List.length_pos_iff.2 hm
          omega
        rw [hs] at hrec h ⊢
        rw [scanFrom_found hm hrec, putFound, List.nil_append] at h
        exact (ih _ hlength h rfl).trans (List.suffix_append m rest).isInfix

end LeftOut

end PageCompiler.Text
