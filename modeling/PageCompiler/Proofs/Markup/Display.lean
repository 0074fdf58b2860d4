import PageCompiler.Markup.Display
import PageCompiler.Proofs.Assoc
import PageCompiler.Proofs.Decimal
import PageCompiler.Proofs.Markup.Woven
import Mathlib.Data.List.Induction

/-!
# `PageCompiler.Proofs.Markup.Display`: what values can put into markup

An escaped text is plain, whatever the value it shows (`plain_escape`). It ends in an equals sign
only if a text in the value does (`Value.Tidy`). The second matters for attribute values: an equals
sign in front of a closing quote looks like the start of another attribute.
-/

set_option autoImplicit false

namespace PageCompiler

open Text

/-! ### Texts that end in an equals sign -/

/-- The last character that is no white space is an equals sign. -/
def EndsInEquals (s : List Char) : Prop :=
  (trimRight s).getLast? = some '='

instance (s : List Char) : Decidable (EndsInEquals s) :=
  inferInstanceAs (Decidable ((trimRight s).getLast? = some '='))

/-- The characters of a text that are no white space. -/
def inked (s : List Char) : List Char :=
  s.filter fun c => !isBlank c

theorem inked_append (s t : List Char) : inked (s ++ t) = inked s ++ inked t :=
  List.filter_append ..

/-- White space plays no part in how a text ends. -/
theorem endsInEquals_iff {s : List Char} : EndsInEquals s ↔ (inked s).getLast? = some '=' := by
  have hlast : (trimRight s).getLast? = (inked s).getLast? := by
    rw [trimRight, dropRightWhile, inked, List.getLast?_reverse, List.getLast?_eq_head?_reverse,
      ← List.filter_reverse, List.head?_filter, List.find?_eq_head?_dropWhile_not]
    simp
  rw [EndsInEquals, hlast]

/-- What two texts put together end in, one of them ends in. -/
theorem endsInEquals_append {s t : List Char} (h : EndsInEquals (s ++ t)) :
    EndsInEquals s ∨ EndsInEquals t := by
  rw [endsInEquals_iff, inked_append, List.getLast?_append] at h
  cases ht : (inked t).getLast? with
  | none =>
    rw [ht, Option.none_or] at h
    exact .inl (endsInEquals_iff.2 h)
  | some c =>
    rw [ht, Option.some_or] at h
    exact .inr (endsInEquals_iff.2 (ht.trans h))

/-- A text that is not blank decides alone how a text ends. -/
theorem endsInEquals_append_iff {s t : List Char} (ht : inked t ≠ []) :
    EndsInEquals (s ++ t) ↔ EndsInEquals t := by
  obtain ⟨c, hc⟩ := Option.ne_none_iff_exists'.1 (mt List.getLast?_eq_none_iff.1 ht)
  rw [endsInEquals_iff, endsInEquals_iff, inked_append, List.getLast?_append, hc, Option.some_or]

theorem not_endsInEquals_of_not_mem {s : List Char} (h : '=' ∉ s) : ¬ EndsInEquals s := by
  intro hs
  rw [endsInEquals_iff] at hs
  exact h (List.mem_filter.1 (List.mem_of_getLast? hs)).1

/-! ### Values without texts that end in an equals sign -/

mutual

/-- No text in the value ends in an equals sign. -/
def Value.Tidy : Value → Prop
  | .text s => ¬ EndsInEquals s.toList
  | .list items => ItemsTidy items
  | .map fields => FieldsTidy fields
  | _ => True

/-- `Value.Tidy` for the items of a list. -/
def ItemsTidy : List Value → Prop
  | [] => True
  | v :: rest => v.Tidy ∧ ItemsTidy rest

/-- `Value.Tidy` for the fields of a map. -/
def FieldsTidy : List (String × Value) → Prop
  | [] => True
  | (_, v) :: rest => v.Tidy ∧ FieldsTidy rest

end

theorem tidy_of_mem_items {items : List Value} (h : ItemsTidy items) : ∀ v ∈ items, v.Tidy := by
  induction items with
  | nil => simp
  | cons v items ih =>
    intro w hw
    rcases List.mem_cons.1 hw with rfl | hw
    · exact h.1
    · exact ih h.2 w hw

theorem fieldsTidy_iff {fields : Fields} :
    FieldsTidy fields ↔ ∀ entry ∈ fields, entry.2.Tidy := by
  induction fields with
  | nil => simp [FieldsTidy]
  | cons entry fields ih => simp [FieldsTidy, ih]

/-- What is found under a key is tidy if all fields are. -/
theorem tidy_of_get? {fields : Fields} (h : FieldsTidy fields) {key : String} {v : Value}
    (hv : Assoc.get? fields key = some v) : v.Tidy :=
  fieldsTidy_iff.1 h _ (Assoc.mem_of_get? hv)

theorem tidy_of_either {fields : Fields} (h : FieldsTidy fields) {first second : String} {v : Value}
    (hv : fields.either first second = some v) : v.Tidy := by
  unfold Fields.either at hv
  split at hv
  next w hw =>
    split at hv
    · exact tidy_of_get? h (hw.trans hv)
    · exact tidy_of_get? h hv
  next => exact tidy_of_get? h hv

/-! ### The text of a value -/

/-- A floating-point number is written without an equals sign. -/
theorem equals_not_mem_write (x : Float) : '=' ∉ (Decimal.Layout.plain.write x).toList := by
  intro hmem
  rcases Decimal.mem_write _ x _ hmem with hmem | hmem | hmem
  · exact absurd hmem (by decide)
  · exact absurd hmem (by decide)
  · exact absurd hmem (by decide)

/-- Texts joined by commas end as the texts do. -/
theorem not_endsInEquals_intercalate {texts : List String}
    (h : ∀ t ∈ texts, ¬ EndsInEquals t.toList) :
    ¬ EndsInEquals (", ".intercalate texts).toList := by
  induction texts with
  | nil => decide
  | cons t texts ih =>
    have ih := ih fun u hu => h u (by simp [hu])
    cases texts with
    | nil => simpa using h t (by simp)
    | cons u texts =>
      rw [String.intercalate_cons_of_ne_nil (by simp), String.toList_append, String.toList_append]
      intro hends
      rcases endsInEquals_append hends with hends | hends
      · rcases endsInEquals_append hends with hends | hends
        · exact h t (by simp) hends
        · exact absurd hends (by decide)
      · exact ih hends

mutual

/-- The text of a tidy value does not end in an equals sign. -/
theorem Value.not_endsInEquals_display (v : Value) (h : v.Tidy) :
    ¬ EndsInEquals v.display.toList := by
  cases v with
  | null => decide
  | bool b => cases b <;> decide
  | int n =>
    refine not_endsInEquals_of_not_mem fun hmem => ?_
    exact absurd (Decimal.mem_toString hmem) (by decide)
  | float x => exact not_endsInEquals_of_not_mem (equals_not_mem_write x)
  | text s =>
    rw [Value.display]
    split
    · decide
    · exact h
  | list items => exact not_endsInEquals_intercalate (not_endsInEquals_displayItems items h)
  | map fields => exact not_endsInEquals_intercalate (not_endsInEquals_displayFields fields h)

theorem not_endsInEquals_displayItems (items : List Value) (h : ItemsTidy items) :
    ∀ t ∈ displayItems items, ¬ EndsInEquals t.toList := by
  cases items with
  | nil => simp [displayItems]
  | cons v items =>
    intro t ht
    rcases List.mem_cons.1 ht with rfl | ht
    · exact v.not_endsInEquals_display h.1
    · exact not_endsInEquals_displayItems items h.2 t ht

/-- Tidy fields are shown without an equals sign at an end. -/
theorem not_endsInEquals_displayFields (fields : List (String × Value)) (h : FieldsTidy fields) :
    ∀ t ∈ displayFields fields, ¬ EndsInEquals t.toList := by
  match fields with
  | [] => simp [displayFields]
  | (key, v) :: fields =>
    intro t ht
    rcases List.mem_cons.1 ht with rfl | ht
    · -- The colon behind the key is in the way of the key's own end.
      have hv := v.not_endsInEquals_display h.1
      rw [String.toList_append, String.toList_append]
      intro hends
      rcases endsInEquals_append hends with hends | hends
      · exact absurd ((endsInEquals_append_iff (by decide)).1 hends) (by decide)
      · exact hv hends
    · exact not_endsInEquals_displayFields fields h.2 t ht

end

namespace Markup

theorem not_endsInEquals_asText {v : Option Value} {default : String}
    (hv : ∀ w, v = some w → w.Tidy) (hdefault : ¬ EndsInEquals default.toList) :
    ¬ EndsInEquals (asText v default).toList := by
  unfold asText orElse
  split
  · exact hdefault
  · cases v with
    | none => decide
    | some w => exact w.not_endsInEquals_display (hv w rfl)

/-! ### Escaping -/

theorem plain_escapeChar (c : Char) : Plain (escapeChar c) := by
  unfold escapeChar
  iterate 5
    split
    · decide
  next h₁ h₂ h₃ h₄ h₅ =>
    simp only [beq_iff_eq] at h₂ h₃ h₄
    exact plain_cons.2 ⟨⟨h₂, h₃, h₄⟩, plain_nil⟩

/-- An escaped text is plain. -/
theorem plain_escape (s : String) : Plain (escape s).toList := by
  rw [escape, String.toList_ofList]
  intro c hc
  obtain ⟨d, -, hd⟩ := List.mem_flatMap.1 hc
  exact plain_escapeChar d c hd

/-- An escaped character is that character, or ends in a semicolon. -/
theorem escapeChar_cases (c : Char) :
    escapeChar c = [c] ∨ (¬ EndsInEquals (escapeChar c) ∧ inked (escapeChar c) ≠ []) := by
  unfold escapeChar
  iterate 5
    split
    next h =>
      obtain rfl := eq_of_beq h
      exact .inr (by decide)
  exact .inl rfl

/-- Escaping does not bring an equals sign to the end of a text. -/
theorem not_endsInEquals_escape {s : String} (h : ¬ EndsInEquals s.toList) :
    ¬ EndsInEquals (escape s).toList := by
  rw [escape, String.toList_ofList]
  generalize s.toList = t at h
  -- From the right: the last character that is no white space decides.
  induction t using List.reverseRecOn with
  | nil => exact h
  | append_singleton t c ih =>
    rw [List.flatMap_append, List.flatMap_singleton]
    rcases escapeChar_cases c with hc | ⟨hends, hinked⟩
    · rw [hc]
      by_cases hblank : isBlank c = true
      · have hdrop : ∀ u : List Char, EndsInEquals (u ++ [c]) ↔ EndsInEquals u := by
          intro u
          rw [endsInEquals_iff, endsInEquals_iff, inked_append]
          simp [inked, hblank]
        rw [hdrop] at h ⊢
        exact ih h
      · have hinked : inked [c] ≠ [] := by simp [inked, hblank]
        rwa [endsInEquals_append_iff hinked] at h ⊢
    · rwa [endsInEquals_append_iff hinked]

theorem plain_escaped (v : Option Value) (default : String) : Plain (escaped v default).toList :=
  plain_escape _

theorem not_endsInEquals_escaped {v : Option Value} {default : String}
    (hv : ∀ w, v = some w → w.Tidy) (hdefault : ¬ EndsInEquals default.toList) :
    ¬ EndsInEquals (escaped v default).toList :=
  not_endsInEquals_escape (not_endsInEquals_asText hv hdefault)

end Markup

end PageCompiler
