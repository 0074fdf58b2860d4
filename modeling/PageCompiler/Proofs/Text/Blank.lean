import Mathlib.Data.List.TakeWhile
import PageCompiler.Text.Blank

/-!
# `PageCompiler.Proofs.Text.Blank`: trimming and cutting at white space

A text that neither starts nor ends with white space is what `trim` leaves of it, whatever white
space is put around it. The fields of a text hold its characters without the white space.
-/

set_option autoImplicit false

namespace PageCompiler.Text

theorem dropRightWhile_append_of_pos {p : Char → Bool} {s t : List Char}
    (h : ∀ c ∈ t, p c = true) : dropRightWhile p (s ++ t) = dropRightWhile p s := by
  unfold dropRightWhile
  rw [List.reverse_append, List.dropWhile_append_of_pos]
  intro c hc
  exact h c (List.mem_reverse.1 hc)

theorem dropRightWhile_of_last {p : Char → Bool} {s : List Char}
    (h : ∀ c, s.getLast? = some c → p c = false) : dropRightWhile p s = s := by
  rcases List.eq_nil_or_concat s with rfl | ⟨t, c, rfl⟩
  · rfl
  · have hc : p c = false := h c (by simp)
    unfold dropRightWhile
    simp [hc]

/-- Dropping from the end stops at a character that is to stay. -/
theorem dropRightWhile_append_cons {p : Char → Bool} {a s : List Char} {c : Char}
    (h : p c = false) : dropRightWhile p (a ++ c :: s) = a ++ c :: dropRightWhile p s := by
  unfold dropRightWhile
  rw [List.reverse_append, List.reverse_cons, List.append_assoc, List.dropWhile_append]
  split
  · rename_i hempty
    rw [List.isEmpty_iff.1 hempty]
    simp [h]
  · simp

/-- What is dropped from the end. -/
theorem exists_dropRightWhile_append (p : Char → Bool) (s : List Char) :
    ∃ t, s = dropRightWhile p s ++ t ∧ ∀ c ∈ t, p c = true := by
  refine ⟨(s.reverse.takeWhile p).reverse, ?_, ?_⟩
  · unfold dropRightWhile
    rw [← List.reverse_append, List.takeWhile_append_dropWhile, List.reverse_reverse]
  · intro c hc
    exact List.mem_takeWhile_imp (List.mem_reverse.1 hc)

theorem dropWhile_of_head {p : Char → Bool} {c : Char} {s : List Char} (h : p c = false) :
    (c :: s).dropWhile p = c :: s := by
  simp [h]

/-- White space around a text that has none at its ends. -/
theorem trim_around {lead s trail : List Char} {c : Char} (hlead : ∀ d ∈ lead, isBlank d = true)
    (htrail : ∀ d ∈ trail, isBlank d = true) (hc : isBlank c = false)
    (hlast : ∀ d, (c :: s).getLast? = some d → isBlank d = false) :
    trim (lead ++ (c :: s ++ trail)) = c :: s := by
  unfold trim trimLeft trimRight
  rw [List.dropWhile_append_of_pos hlead, List.cons_append, dropWhile_of_head hc,
    ← List.cons_append, dropRightWhile_append_of_pos htrail, dropRightWhile_of_last hlast]

theorem trim_of_allBlank {s : List Char} (h : ∀ c ∈ s, isBlank c = true) : trim s = [] := by
  unfold trim trimLeft
  rw [List.dropWhile_eq_nil_iff.2 h]
  rfl

/-- A text without the characters at its ends that satisfy `p`. -/
def dropEnds (p : Char → Bool) (s : List Char) : List Char :=
  dropRightWhile p (s.dropWhile p)

theorem exists_dropEnds_append (p : Char → Bool) (s : List Char) :
    ∃ lead trail, s = lead ++ (dropEnds p s ++ trail) ∧ (∀ c ∈ lead, p c = true) ∧
      ∀ c ∈ trail, p c = true := by
  obtain ⟨trail, hs, htrail⟩ := exists_dropRightWhile_append p (s.dropWhile p)
  refine ⟨s.takeWhile p, trail, ?_, fun c hc => List.mem_takeWhile_imp hc, htrail⟩
  calc s = s.takeWhile p ++ s.dropWhile p := List.takeWhile_append_dropWhile.symm
    _ = s.takeWhile p ++ (dropEnds p s ++ trail) := congrArg _ hs

/-- What is put around a text is dropped with what the text has at its own ends. -/
theorem dropEnds_within {p : Char → Bool} {lead s trail : List Char}
    (hlead : ∀ c ∈ lead, p c = true) (htrail : ∀ c ∈ trail, p c = true) :
    dropEnds p (lead ++ (s ++ trail)) = dropEnds p s := by
  unfold dropEnds
  rw [List.dropWhile_append_of_pos hlead, List.dropWhile_append]
  split
  next hempty =>
    rw [List.isEmpty_iff.1 hempty, List.dropWhile_eq_nil_iff.2 htrail]
  next => exact dropRightWhile_append_of_pos htrail

theorem dropEnds_dropEnds (p : Char → Bool) (s : List Char) :
    dropEnds p (dropEnds p s) = dropEnds p s := by
  obtain ⟨lead, trail, hs, hlead, htrail⟩ := exists_dropEnds_append p s
  calc dropEnds p (dropEnds p s) = dropEnds p (lead ++ (dropEnds p s ++ trail)) :=
        (dropEnds_within hlead htrail).symm
    _ = dropEnds p s := by rw [← hs]

/-- A text is what `trim` leaves of it, with white space around. -/
theorem exists_trim_append (s : List Char) :
    ∃ lead trail, s = lead ++ (trim s ++ trail) ∧ (∀ c ∈ lead, isBlank c = true) ∧
      ∀ c ∈ trail, isBlank c = true :=
  exists_dropEnds_append isBlank s

/-- White space around a text is trimmed with the white space of the text itself. -/
theorem trim_within {lead s trail : List Char} (hlead : ∀ c ∈ lead, isBlank c = true)
    (htrail : ∀ c ∈ trail, isBlank c = true) : trim (lead ++ (s ++ trail)) = trim s :=
  dropEnds_within hlead htrail

theorem trim_trim (s : List Char) : trim (trim s) = trim s :=
  dropEnds_dropEnds isBlank s

/-- Nothing is left of white space, and of nothing else. -/
theorem trim_eq_nil_iff {s : List Char} : trim s = [] ↔ allBlank s = true := by
  rw [allBlank, List.all_eq_true]
  constructor
  · intro h
    obtain ⟨lead, trail, hs, hlead, htrail⟩ := exists_trim_append s
    rw [h, List.nil_append] at hs
    rw [hs]
    exact List.forall_mem_append.2 ⟨hlead, htrail⟩
  · exact trim_of_allBlank

/-- A field has no blank and only characters of the text. -/
theorem mem_fieldsFrom {current s token : List Char} (h : token ∈ fieldsFrom current s)
    (hcurrent : ∀ c ∈ current, isBlank c = false) :
    ∀ c ∈ token, (c ∈ current ∨ c ∈ s) ∧ isBlank c = false := by
  induction s generalizing current with
  | nil =>
    rw [fieldsFrom] at h
    split at h
    · cases h
    · rw [List.mem_singleton.1 h]
      intro c hc
      have hc := List.mem_reverse.1 hc
      exact ⟨.inl hc, hcurrent c hc⟩
  | cons d s ih =>
    have hnil : ∀ c ∈ ([] : List Char), isBlank c = false := by simp
    have hrest : token ∈ fieldsFrom [] s →
        ∀ c ∈ token, (c ∈ current ∨ c ∈ d :: s) ∧ isBlank c = false := by
      intro h c hc
      obtain ⟨hmem, hblank⟩ := ih h hnil c hc
      rcases hmem with hmem | hmem
      · cases hmem
      · exact ⟨.inr (List.mem_cons_of_mem d hmem), hblank⟩
    rw [fieldsFrom] at h
    split at h
    next hd =>
      split at h
      · exact hrest h
      · rcases List.mem_cons.1 h with rfl | h
        · intro c hc
          have hc := List.mem_reverse.1 hc
          exact ⟨.inl hc, hcurrent c hc⟩
        · exact hrest h
    next hd =>
      intro c hc
      have hcurrent' : ∀ e ∈ d :: current, isBlank e = false :=
        List.forall_mem_cons.2 ⟨by simpa using hd, hcurrent⟩
      obtain ⟨hmem, hblank⟩ := ih h hcurrent' c hc
      refine ⟨?_, hblank⟩
      rcases hmem with hmem | hmem
      · rcases List.mem_cons.1 hmem with rfl | hmem
        · exact .inr List.mem_cons_self
        · exact .inl hmem
      · exact .inr (List.mem_cons_of_mem d hmem)

/-- Fields hold characters of the text, and no white space. -/
theorem mem_fields {s token : List Char} (h : token ∈ fields s) :
    ∀ c ∈ token, c ∈ s ∧ isBlank c = false := by
  intro c hc
  obtain ⟨hmem, hblank⟩ := mem_fieldsFrom h (by simp) c hc
  rcases hmem with hmem | hmem
  · cases hmem
  · exact ⟨hmem, hblank⟩

/-- Fields hold at least one character. -/
theorem ne_nil_of_mem_fields {s token : List Char} (h : token ∈ fields s) : token ≠ [] := by
  have hwalk : ∀ (s current : List Char), ∀ token ∈ fieldsFrom current s, token ≠ [] := by
    intro s
    induction s with
    | nil =>
      intro current token htoken
      rw [fieldsFrom] at htoken
      split at htoken
      · cases htoken
      next hcurrent =>
        rw [List.mem_singleton.1 htoken]
        simpa using hcurrent
    | cons c s ih =>
      intro current token htoken
      rw [fieldsFrom] at htoken
      split at htoken
      · split at htoken
        · exact ih [] token htoken
        next hcurrent =>
          rcases List.mem_cons.1 htoken with rfl | htoken
          · simpa using hcurrent
          · exact ih [] token htoken
      · exact ih (c :: current) token htoken
  exact hwalk s [] token h

/-- A field goes on as long as no white space comes. -/
theorem fieldsFrom_append {current token : List Char} (h : ∀ c ∈ token, isBlank c = false)
    (s : List Char) :
    fieldsFrom current (token ++ s) = fieldsFrom (token.reverse ++ current) s := by
  induction token generalizing current with
  | nil => rfl
  | cons c token ih =>
    obtain ⟨hc, htoken⟩ := List.forall_mem_cons.1 h
    rw [List.cons_append, fieldsFrom, hc, if_neg Bool.false_ne_true, ih htoken, List.reverse_cons,
      List.append_assoc]
    rfl

/-- Fields that are joined by blanks are found again. -/
theorem fields_intercalate {tokens : List (List Char)}
    (h : ∀ token ∈ tokens, token ≠ [] ∧ ∀ c ∈ token, isBlank c = false) :
    fields ([' '].intercalate tokens) = tokens := by
  induction tokens with
  | nil => rfl
  | cons token tokens ih =>
    obtain ⟨⟨hne, htoken⟩, hrest⟩ := List.forall_mem_cons.1 h
    have hempty : (token.reverse ++ []).isEmpty = false := by simpa using hne
    have hblank : isBlank ' ' = true := by decide
    cases tokens with
    | nil =>
      rw [List.intercalate_singleton, fields, ← List.append_nil token, fieldsFrom_append htoken,
        fieldsFrom, hempty]
      simp
    | cons next tokens =>
      rw [List.intercalate_cons_cons, List.append_assoc, fields, fieldsFrom_append htoken,
        List.singleton_append, fieldsFrom, hblank, if_pos rfl, hempty, if_neg Bool.false_ne_true]
      show (token.reverse ++ []).reverse :: fields _ = _
      rw [ih hrest, List.append_nil, List.reverse_reverse]

/-- What holds of the characters of all parts and of the separator holds of the whole. -/
theorem forall_mem_intercalate {P : Char → Prop} {sep : List Char} {parts : List (List Char)}
    (hsep : ∀ c ∈ sep, P c) (hparts : ∀ part ∈ parts, ∀ c ∈ part, P c) :
    ∀ c ∈ sep.intercalate parts, P c := by
  induction parts with
  | nil => simp
  | cons part parts ih =>
    obtain ⟨hpart, hparts⟩ := List.forall_mem_cons.1 hparts
    cases parts with
    | nil => simpa using hpart
    | cons part' parts =>
      rw [List.intercalate_cons_cons, List.append_assoc]
      exact List.forall_mem_append.2 ⟨hpart, List.forall_mem_append.2 ⟨hsep, ih hparts⟩⟩

end PageCompiler.Text
