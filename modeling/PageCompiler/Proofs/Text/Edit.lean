import PageCompiler.Text.Scan

/-!
# `PageCompiler.Proofs.Text.Edit`: one text comes from another by edits

`Edited allowed before s t` says that `t` is `s` with some stretches put in the place of others,
each as `allowed` says, and all other characters kept. What is allowed may depend on the character
in front of a stretch and on the text behind it.

A delimiter that no edit touches cuts both texts at the same place (`Edited.split`), so an edited
text can be compared with the first one delimiter by delimiter.
-/

set_option autoImplicit false

namespace PageCompiler.Text

/-- The character behind which a text goes on, once `s` is read behind the character `before`. -/
def behind (before : Option Char) : List Char → Option Char
  | [] => before
  | c :: s => behind (some c) s

@[simp] theorem behind_nil (before : Option Char) : behind before [] = before := rfl

@[simp] theorem behind_cons (before : Option Char) (c : Char) (s : List Char) :
    behind before (c :: s) = behind (some c) s := rfl

@[simp] theorem behind_append (before : Option Char) (s t : List Char) :
    behind before (s ++ t) = behind (behind before s) t := by
  induction s generalizing before with
  | nil => rfl
  | cons c s ih => exact ih (some c)

/-- What may be put in the place of a stretch, by the character in front of it and the text behind
it. -/
abbrev Edit := (before : Option Char) → (old new rest : List Char) → Prop

/-- A text that comes from another by edits. -/
inductive Edited (allowed : Edit) : Option Char → List Char → List Char → Prop
  | nil (before : Option Char) : Edited allowed before [] []
  | keep (before : Option Char) (c : Char) {s t : List Char} (h : Edited allowed (some c) s t) :
      Edited allowed before (c :: s) (c :: t)
  | swap (before : Option Char) {old new s t : List Char} (hold : allowed before old new s)
      (h : Edited allowed (behind before old) s t) : Edited allowed before (old ++ s) (new ++ t)

namespace Edited

variable {allowed : Edit} {before : Option Char} {s t : List Char}

theorem refl (before : Option Char) (s : List Char) : Edited allowed before s s := by
  induction s generalizing before with
  | nil => exact .nil before
  | cons c s ih => exact .keep before c (ih (some c))

/-- Edits of two texts put together, if those of the first are allowed in front of the second. -/
theorem append {s' t' : List Char}
    (hext : ∀ {before old new rest}, allowed before old new rest →
      allowed before old new (rest ++ s'))
    (h : Edited allowed before s t) (h' : Edited allowed (behind before s) s' t') :
    Edited allowed before (s ++ s') (t ++ t') := by
  induction h with
  | nil before => exact h'
  | keep before c h ih => exact .keep before c (ih h')
  | swap before hold h ih =>
    rw [behind_append] at h'
    rw [List.append_assoc, List.append_assoc]
    exact .swap before (hext hold) (ih h')

/-- A text may stand in front of an edited one. -/
theorem append_left (x : List Char) (h : Edited allowed (behind before x) s t) :
    Edited allowed before (x ++ s) (x ++ t) := by
  induction x generalizing before with
  | nil => exact h
  | cons c x ih => exact .keep before c (ih h)

/-- A delimiter that no edit touches, and behind which no edit looks. -/
structure Delimiter (allowed : Edit) (d : Char) : Prop where
  not_mem : ∀ {before old new rest}, allowed before old new rest → d ∉ old
  upTo : ∀ {before old new s rest}, allowed before old new (s ++ d :: rest) →
    allowed before old new s

/-- An edited text is cut at a delimiter where the first text is. -/
theorem split {d : Char} (hd : Delimiter allowed d) {u : List Char} (a b : List Char)
    (h : Edited allowed before (a ++ d :: b) u) :
    ∃ a' b', u = a' ++ d :: b' ∧ Edited allowed before a a' ∧ Edited allowed (some d) b b' := by
  generalize hs : a ++ d :: b = s at h
  induction h generalizing a with
  | nil before => simp at hs
  | keep before c h ih =>
    cases a with
    | nil =>
      obtain ⟨rfl, rfl⟩ := List.cons.inj hs
      exact ⟨[], _, rfl, .nil before, h⟩
    | cons c' a =>
      obtain ⟨rfl, htail⟩ := List.cons.inj hs
      obtain ⟨a', b', rfl, ha, hb⟩ := ih a htail
      exact ⟨c' :: a', b', rfl, .keep before c' ha, hb⟩
  | @swap before old new s t hold h ih =>
    -- The stretch does not reach the delimiter, so it lies in front of it.
    obtain ⟨rest, rfl, hrest⟩ | ⟨c, rest, rfl, hrest⟩ :
        (∃ rest, a = old ++ rest ∧ s = rest ++ d :: b) ∨
          ∃ c rest, old = a ++ c :: rest ∧ d :: b = (c :: rest) ++ s := by
      rcases List.append_eq_append_iff.1 hs with ⟨rest, rfl, hrest⟩ | ⟨rest, rfl, hrest⟩
      · cases rest with
        | nil => exact .inl ⟨[], by simp, hrest.symm⟩
        | cons c rest => exact .inr ⟨c, rest, rfl, hrest⟩
      · exact .inl ⟨rest, rfl, hrest⟩
    · obtain ⟨a', b', rfl, ha, hb⟩ := ih rest hrest.symm
      rw [hrest] at hold
      exact ⟨new ++ a', b', by simp, .swap before (hd.upTo hold) ha, hb⟩
    · obtain ⟨rfl, -⟩ := List.cons.inj hrest
      exact absurd (by simp) (hd.not_mem hold)

/-- A text at no place of which an edit can start is left alone. -/
theorem untouched {x u : List Char}
    (hx : ∀ a b, x = a ++ b → b ≠ [] → ∀ {old new rest}, allowed (behind before a) old new rest →
      old ++ rest ≠ b ++ s)
    (h : Edited allowed before (x ++ s) u) :
    ∃ u', u = x ++ u' ∧ Edited allowed (behind before x) s u' := by
  induction x generalizing before u with
  | nil => exact ⟨u, rfl, h⟩
  | cons c x ih =>
    generalize ht : c :: x ++ s = t at h
    cases h with
    | nil => simp at ht
    | keep _ c' h =>
      obtain ⟨rfl, rfl⟩ := List.cons.inj ht
      obtain ⟨u', rfl, hu'⟩ := ih (fun a b hab => hx (c :: a) b (by rw [hab]; rfl)) h
      exact ⟨u', rfl, hu'⟩
    | swap _ hold h => exact absurd ht.symm (hx [] (c :: x) rfl (by simp) hold)

/-- Edits that never start with a character of a text leave the text alone. -/
theorem fixed {a b u : List Char}
    (ha : ∀ c ∈ a, ∀ before old new rest, allowed before (c :: old) new rest → False)
    (hnil : ∀ before new rest, ¬ allowed before [] new rest)
    (h : Edited allowed before (a ++ b) u) :
    ∃ b', u = a ++ b' ∧ Edited allowed (behind before a) b b' := by
  refine h.untouched fun x y hxy hy old new rest hold heq => ?_
  cases old with
  | nil => exact hnil _ _ _ hold
  | cons c old =>
    obtain ⟨d, y, rfl⟩ := List.exists_cons_of_ne_nil hy
    obtain ⟨rfl, -⟩ := List.cons.inj heq
    exact ha c (by simp [hxy]) _ _ _ _ hold

/-- A stretch of an edited text was there before, if at no place of it a new text starts. -/
theorem untouched_new {x u : List Char}
    (hx : ∀ a b, x = a ++ b → b ≠ [] → ∀ {old new rest rest'},
      allowed (behind before a) old new rest → new ++ rest' ≠ b ++ u)
    (h : Edited allowed before s (x ++ u)) :
    ∃ s', s = x ++ s' ∧ Edited allowed (behind before x) s' u := by
  induction x generalizing before s with
  | nil => exact ⟨s, rfl, h⟩
  | cons c x ih =>
    generalize ht : c :: x ++ u = t at h
    cases h with
    | nil => simp at ht
    | keep _ c' h =>
      obtain ⟨rfl, rfl⟩ := List.cons.inj ht
      obtain ⟨s', rfl, hs'⟩ := ih (fun a b hab => hx (c :: a) b (by rw [hab]; rfl)) h
      exact ⟨s', rfl, hs'⟩
    | swap _ hold h => exact absurd ht.symm (hx [] (c :: x) rfl (by simp) hold)

/-- Where nothing is, nothing is put in. -/
theorem eq_nil (hold : ∀ {before old new rest}, allowed before old new rest → old ≠ [])
    (h : Edited allowed before [] t) : t = [] := by
  generalize hs : [] = s at h
  cases h with
  | nil => rfl
  | keep => cases hs
  | swap _ hswap => exact absurd (List.append_eq_nil_iff.1 hs.symm).1 (hold hswap)

/-- Characters of an edited text are kept or put in. -/
theorem forall_mem {P : Char → Prop} (h : Edited allowed before s t) (hs : ∀ c ∈ s, P c)
    (hnew : ∀ {before old new rest}, allowed before old new rest → ∀ c ∈ new, P c) :
    ∀ c ∈ t, P c := by
  induction h with
  | nil => exact hs
  | keep before c h ih =>
    intro c' hc'
    rcases List.mem_cons.1 hc' with rfl | hc'
    · exact hs c' (by simp)
    · exact ih (fun x hx => hs x (List.mem_cons_of_mem _ hx)) c' hc'
  | swap before hold h ih =>
    intro c' hc'
    rcases List.mem_append.1 hc' with hc' | hc'
    · exact hnew hold c' hc'
    · exact ih (fun x hx => hs x (List.mem_append_right _ hx)) c' hc'

/-- A character that no edit takes or puts in stands as often as before. -/
theorem count_eq {d : Char}
    (hd : ∀ {before old new rest}, allowed before old new rest → d ∉ old ∧ d ∉ new)
    (h : Edited allowed before s t) : t.count d = s.count d := by
  induction h with
  | nil => rfl
  | keep before c h ih => rw [List.count_cons, List.count_cons, ih]
  | swap before hold h ih =>
    obtain ⟨hold, hnew⟩ := hd hold
    rw [List.count_append, List.count_append, ih, List.count_eq_zero.2 hold,
      List.count_eq_zero.2 hnew]

end Edited

end PageCompiler.Text
