import PageCompiler.Proofs.Text.Blank
import PageCompiler.Proofs.Text.Lines

/-!
# `PageCompiler.Proofs.Text.Fields`: what stays when white space changes

The fields of a text are all of it but the white space in between. Cutting a text into lines,
joining lines, and trimming or indenting them changes white space only, so the fields stay
(`flatMap_fields_lines`, `fields_join`). A field and what follows it are found again in the text
(`exists_of_fields_eq_append`), and every other character of a text stands in a field
(`exists_fields_append_cons`).
-/

set_option autoImplicit false

namespace PageCompiler.Text

/-- Line breaks are white space. -/
theorem isBlank_of_isLineBreak {c : Char} (h : isLineBreak c = true) : isBlank c = true := by
  unfold isLineBreak at h
  unfold isBlank
  simp only [Bool.or_eq_true, Bool.and_eq_true, decide_eq_true_eq, beq_iff_eq] at h ⊢
  omega

/-! ### White space around a text and within it -/

theorem fields_cons_of_blank {c : Char} (h : isBlank c = true) (s : List Char) :
    fields (c :: s) = fields s := by
  simp [fields, fieldsFrom, h]

theorem fields_blank_append {lead : List Char} (h : ∀ c ∈ lead, isBlank c = true) (s : List Char) :
    fields (lead ++ s) = fields s := by
  induction lead with
  | nil => rfl
  | cons c lead ih =>
    obtain ⟨hc, hlead⟩ := List.forall_mem_cons.1 h
    rw [List.cons_append, fields_cons_of_blank hc, ih hlead]

theorem fields_of_allBlank {s : List Char} (h : ∀ c ∈ s, isBlank c = true) : fields s = [] := by
  rw [← List.append_nil s, fields_blank_append h]
  rfl

/-- White space parts the fields in front of it from those behind it. -/
theorem fields_append_cons {c : Char} (h : isBlank c = true) (a b : List Char) :
    fields (a ++ c :: b) = fields a ++ fields b := by
  have hfrom : ∀ current, fieldsFrom current (a ++ c :: b) = fieldsFrom current a ++ fields b := by
    induction a with
    | nil =>
      intro current
      rw [List.nil_append, fieldsFrom, fieldsFrom, if_pos h]
      split
      · rfl
      · rfl
    | cons d a ih =>
      intro current
      rw [List.cons_append, fieldsFrom, fieldsFrom]
      split
      · split
        · exact ih []
        · rw [ih [], List.cons_append]
      · exact ih (d :: current)
  exact hfrom []

theorem fields_append_blank {trail : List Char} (h : ∀ c ∈ trail, isBlank c = true)
    (s : List Char) : fields (s ++ trail) = fields s := by
  cases trail with
  | nil => rw [List.append_nil]
  | cons c trail =>
    obtain ⟨hc, htrail⟩ := List.forall_mem_cons.1 h
    rw [fields_append_cons hc, fields_of_allBlank htrail, List.append_nil]

/-! ### Fields and where they stand -/

/-- A field that has begun goes on up to the next white space. -/
theorem fieldsFrom_of_ne_nil {current : List Char} (h : current ≠ []) (s : List Char) :
    fieldsFrom current s =
      (current.reverse ++ s.takeWhile (!isBlank ·)) :: fields (s.dropWhile (!isBlank ·)) := by
  have hempty : current.isEmpty = false := by simpa using h
  induction s generalizing current with
  | nil => simp [fieldsFrom, fields, hempty]
  | cons c s ih =>
    rw [fieldsFrom]
    cases hc : isBlank c with
    | true =>
      have htake : (c :: s).takeWhile (!isBlank ·) = [] := by simp [hc]
      have hdrop : (c :: s).dropWhile (!isBlank ·) = c :: s := by simp [hc]
      rw [if_pos rfl, hempty, if_neg Bool.false_ne_true, htake, hdrop, List.append_nil,
        fields_cons_of_blank hc]
      rfl
    | false =>
      rw [if_neg Bool.false_ne_true, ih (by simp) (by simp)]
      simp [hc]

theorem fields_cons {c : Char} (h : isBlank c = false) (s : List Char) :
    fields (c :: s) =
      (c :: s.takeWhile (!isBlank ·)) :: fields (s.dropWhile (!isBlank ·)) := by
  rw [fields, fieldsFrom, h, if_neg Bool.false_ne_true, fieldsFrom_of_ne_nil (by simp)]
  rfl

/-- A character that is no white space stands in a field, which goes on up to the next white
space. -/
theorem exists_fields_append_cons {c : Char} (h : isBlank c = false) (x y : List Char) :
    ∃ pre a, fields (x ++ c :: y) =
      pre ++ (a ++ c :: y.takeWhile (!isBlank ·)) :: fields (y.dropWhile (!isBlank ·)) := by
  have hfrom : ∀ current, ∃ pre a, fieldsFrom current (x ++ c :: y) =
      pre ++ (a ++ c :: y.takeWhile (!isBlank ·)) :: fields (y.dropWhile (!isBlank ·)) := by
    induction x with
    | nil =>
      intro current
      refine ⟨[], current.reverse, ?_⟩
      rw [List.nil_append, fieldsFrom, h, if_neg Bool.false_ne_true,
        fieldsFrom_of_ne_nil (by simp), List.reverse_cons, List.append_assoc]
      rfl
    | cons d x ih =>
      intro current
      rw [List.cons_append, fieldsFrom]
      split
      · split
        · exact ih []
        · obtain ⟨pre, a, hfields⟩ := ih []
          exact ⟨current.reverse :: pre, a, by rw [hfields, List.cons_append]⟩
      · exact ih (d :: current)
  exact hfrom []

/-- The first field stands behind white space, and white space or nothing follows it. -/
theorem exists_of_fields_eq_cons {s field : List Char} {post : List (List Char)}
    (h : fields s = field :: post) :
    ∃ lead rest, s = lead ++ (field ++ rest) ∧ (∀ c ∈ lead, isBlank c = true) ∧
      (∀ c, rest.head? = some c → isBlank c = true) ∧ fields rest = post := by
  have hlead : ∀ c ∈ s.takeWhile isBlank, isBlank c = true := fun c hc => List.mem_takeWhile_imp hc
  have hsplit : s.takeWhile isBlank ++ s.dropWhile isBlank = s := List.takeWhile_append_dropWhile
  rw [← hsplit, fields_blank_append hlead] at h
  cases hs : s.dropWhile isBlank with
  | nil =>
    rw [hs] at h
    cases h
  | cons c t =>
    have hc : isBlank c = false := by
      have hhead := List.head?_dropWhile_not isBlank s
      rw [hs] at hhead
      simpa using hhead
    rw [hs, fields_cons hc] at h
    obtain ⟨rfl, rfl⟩ := List.cons.inj h
    refine ⟨s.takeWhile isBlank, t.dropWhile (!isBlank ·), ?_, hlead, ?_, rfl⟩
    · rw [List.cons_append, List.takeWhile_append_dropWhile, ← hs, hsplit]
    · intro d hd
      have hhead := List.head?_dropWhile_not (!isBlank ·) t
      rw [hd] at hhead
      simpa using hhead

/-- Every field stands in the text, and white space or nothing follows it. -/
theorem exists_of_fields_eq_append {s field : List Char} {pre post : List (List Char)}
    (h : fields s = pre ++ field :: post) :
    ∃ x rest, s = x ++ (field ++ rest) ∧ (∀ c, rest.head? = some c → isBlank c = true) ∧
      fields rest = post := by
  induction pre generalizing s with
  | nil =>
    obtain ⟨lead, rest, hs, -, hrest, hpost⟩ := exists_of_fields_eq_cons h
    exact ⟨lead, rest, hs, hrest, hpost⟩
  | cons first pre ih =>
    obtain ⟨lead, rest, hs, -, -, hpost⟩ := exists_of_fields_eq_cons h
    obtain ⟨x, rest', hx, hrest', hpost'⟩ := ih hpost
    exact ⟨lead ++ (first ++ x), rest', by rw [hs, hx]; simp, hrest', hpost'⟩

/-- Only a blank text has no fields. -/
theorem fields_eq_nil_iff {s : List Char} : fields s = [] ↔ allBlank s = true := by
  rw [allBlank, List.all_eq_true]
  constructor
  · intro h c hc
    by_contra hne
    obtain ⟨x, y, rfl⟩ := List.append_of_mem hc
    obtain ⟨pre, a, hfields⟩ := exists_fields_append_cons (Bool.eq_false_iff.2 hne) x y
    rw [h] at hfields
    simp at hfields
  · exact fields_of_allBlank

/-! ### Lines -/

/-- How lines end does not matter for the fields of a text. -/
theorem fields_unifyBreaks (s : List Char) : fields (unifyBreaks s) = fields s := by
  have hfeed : isBlank '\n' = true := by decide
  have hfrom : ∀ current, fieldsFrom current (unifyBreaks s) = fieldsFrom current s := by
    fun_induction unifyBreaks s with
    | case1 => exact fun current => rfl
    | case2 rest ih =>
      intro current
      have hreturn : isBlank '\r' = true := by decide
      simp [fieldsFrom, hfeed, hreturn, ih]
    | case3 c rest _ ih =>
      intro current
      cases hc : isLineBreak c with
      | true => simp [fieldsFrom, hfeed, isBlank_of_isLineBreak hc, ih]
      | false => simp [fieldsFrom, ih]
  exact hfrom []

/-- The fields of a text are those of its lines. -/
theorem flatMap_fields_lines (s : List Char) : (lines s).flatMap fields = fields s := by
  rw [← lines_unifyBreaks, ← fields_unifyBreaks]
  induction unifyBreaks s, lineFed_unifyBreaks s using LineFed.induction with
  | one s h =>
    by_cases hs : s = []
    · subst hs
      rfl
    · rw [lines_of_oneLine h hs]
      simp
  | feed line s hline hs ih =>
    rw [lines_append_feed hline, List.flatMap_cons, ih, fields_append_cons (by decide)]

/-- Fields do not cross lines. -/
theorem fields_join (ls : List (List Char)) : fields (join ['\n'] ls) = ls.flatMap fields := by
  induction ls with
  | nil => rfl
  | cons line rest ih =>
    cases rest with
    | nil => simp [join]
    | cons next more =>
      rw [join_cons (by simp), List.append_assoc, List.singleton_append,
        fields_append_cons (by decide), ih]
      rfl

theorem fields_unlines (ls : List String) :
    fields (unlines ls).toList = ls.flatMap fun l => fields l.toList := by
  induction ls with
  | nil => rfl
  | cons line rest ih =>
    cases rest with
    | nil => simp [unlines]
    | cons next more =>
      have htext : (unlines (line :: next :: more)).toList =
          line.toList ++ '\n' :: (unlines (next :: more)).toList := by
        rw [unlines, String.intercalate_cons_of_ne_nil (by simp)]
        simp [unlines]
      rw [htext, fields_append_cons (by decide), ih]
      rfl

end PageCompiler.Text
