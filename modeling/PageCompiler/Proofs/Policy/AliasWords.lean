import Mathlib.Algebra.Ring.Nat
import PageCompiler.Proofs.Distinct
import PageCompiler.Proofs.Policy.Marker
import PageCompiler.Proofs.Policy.References

/-!
# `PageCompiler.Proofs.Policy.AliasWords`: counting aliases

`aliasWords` counts the aliases that stand in a text as words of their own, wherever they stand: in
code, in a literal or in a comment. Renaming lowers the count unless it changes nothing
(`aliasWords_renamed`), and no other pass of a policy raises it (`aliasWords_marked`,
`aliasWords_intercalate_le`). So a text that all passes together leave as it is has not been renamed
at all: what one pass renames no other can take back.
-/

set_option autoImplicit false

namespace PageCompiler

open Text

namespace Rename

variable {aliases : Assoc String}

/-- The aliases among the words of a text, behind the part `w` of a word that goes on. -/
def aliasWords (aliases : Assoc String) (w : List Char) : List Char → Nat
  | [] => (Assoc.has aliases (String.ofList w)).toNat
  | c :: s =>
    if isIdentChar c then aliasWords aliases (w ++ [c]) s
    else (Assoc.has aliases (String.ofList w)).toNat + aliasWords aliases [] s

theorem aliasWords_word {w x s : List Char} (hx : ∀ c ∈ x, isIdentChar c = true) :
    aliasWords aliases w (x ++ s) = aliasWords aliases (w ++ x) s := by
  induction x generalizing w with
  | nil => rw [List.nil_append, List.append_nil]
  | cons c x ih =>
    obtain ⟨hc, hx⟩ := List.forall_mem_cons.1 hx
    rw [List.cons_append, aliasWords, if_pos hc, ih hx, List.append_assoc, List.singleton_append]

/-- The words on both sides of a character that is in no word. -/
theorem aliasWords_append_cons {d : Char} (hd : isIdentChar d = false) (w x s : List Char) :
    aliasWords aliases w (x ++ d :: s) = aliasWords aliases w x + aliasWords aliases [] s := by
  induction x generalizing w with
  | nil => simp [aliasWords, hd]
  | cons c x ih =>
    rw [List.cons_append, aliasWords, aliasWords]
    split
    · exact ih (w ++ [c])
    · rw [ih, Nat.add_assoc]

/-- The words of a second text are counted with the first. -/
theorem exists_aliasWords_le (w x s : List Char) :
    ∃ w', aliasWords aliases w' s ≤ aliasWords aliases w (x ++ s) := by
  induction x generalizing w with
  | nil => exact ⟨w, Nat.le_refl _⟩
  | cons c x ih =>
    rw [List.cons_append, aliasWords]
    split
    · exact ih (w ++ [c])
    · obtain ⟨w', hw'⟩ := ih []
      exact ⟨w', by omega⟩

section Regular

variable (h : Regular aliases)

include h

theorem isIdent_of_has {w : List Char} (hw : Assoc.has aliases (String.ofList w) = true) :
    IsIdent w := by
  obtain ⟨e, he, heq⟩ := List.mem_map.1 (Assoc.has_iff.1 hw)
  have hident := (h e he).1
  rwa [heq, String.toList_ofList] at hident

/-- A word that is no variable is no alias. -/
theorem has_eq_false {w : List Char} (hw : ¬ IsIdent w) :
    Assoc.has aliases (String.ofList w) = false := by
  rw [← Bool.not_eq_true]
  exact mt (isIdent_of_has h) hw

/-- A word ends where no character of a word follows. -/
theorem aliasWords_flush {w s : List Char} (hs : followedBy isIdentChar s = false) :
    aliasWords aliases w s =
      (Assoc.has aliases (String.ofList w)).toNat + aliasWords aliases [] s := by
  have hnil : Assoc.has aliases (String.ofList []) = false :=
    has_eq_false h fun hident => hident.ne_nil rfl
  cases s with
  | nil => simp [aliasWords, hnil]
  | cons c s =>
    rw [followedBy_cons] at hs
    simp [aliasWords, hs, hnil]

/-- Renaming lowers the number of aliases, unless nothing is renamed. -/
theorem aliasWords_renamed (htargets : ∀ e ∈ aliases, Assoc.has aliases e.2 = false)
    {before : Option Char} {s t : List Char} (hedited : Edited (Policy.renamed aliases) before s t)
    {w : List Char} (hw : precededBy isIdentChar before = false → w = []) :
    aliasWords aliases w t ≤ aliasWords aliases w s ∧
      (aliasWords aliases w t = aliasWords aliases w s → t = s) := by
  induction hedited generalizing w with
  | nil => exact ⟨Nat.le_refl _, fun _ => rfl⟩
  | keep before c hedited ih =>
    rw [aliasWords, aliasWords]
    split
    next hc =>
      obtain ⟨hle, heq⟩ := @ih (w ++ [c]) (by simp [precededBy, hc])
      exact ⟨hle, fun hsame => by rw [heq hsame]⟩
    next hc =>
      obtain ⟨hle, heq⟩ := @ih [] (fun _ => rfl)
      exact ⟨by omega, fun hsame => by rw [heq (by omega)]⟩
  | @swap before old new s t hold hedited ih =>
    obtain ⟨target, hget, rfl, hbefore, hend⟩ := hold
    obtain rfl := hw hbefore
    have hmem := Assoc.mem_of_get? hget
    obtain ⟨hident, hident'⟩ := h _ hmem
    rw [String.toList_ofList] at hident
    have hend' := (Policy.followedBy_renamed h hedited (.inr hend)).2
    have hhas : Assoc.has aliases (String.ofList old) = true :=
      Assoc.has_iff.2 (List.mem_map.2 ⟨_, hmem, rfl⟩)
    have hnot : Assoc.has aliases (String.ofList target.toList) = false := by
      rw [String.ofList_toList]
      exact htargets _ hmem
    obtain ⟨hle, -⟩ := @ih [] (fun _ => rfl)
    rw [aliasWords_word hident.chars, aliasWords_word hident'.chars, List.nil_append,
      List.nil_append, aliasWords_flush h hend, aliasWords_flush h hend', hhas, hnot]
    -- The alias was counted before, and its canonical name is not.
    have hfewer : Bool.toNat false + aliasWords aliases [] t <
        Bool.toNat true + aliasWords aliases [] s := by
      simp only [Bool.toNat_false, Bool.toNat_true]
      omega
    exact ⟨Nat.le_of_lt hfewer, fun hsame => absurd hsame (Nat.ne_of_lt hfewer)⟩

/-- Words that start with a digit are no aliases. -/
theorem has_digit {d : Char} (hd : isIdentStart d = false) (x : List Char) :
    Assoc.has aliases (String.ofList (d :: x)) = false := by
  refine has_eq_false h fun hident => ?_
  have hstart := hident.start
  rw [followedBy_cons, hd] at hstart
  cases hstart

/-- A marker with the number of a version does not raise the number of aliases. -/
theorem aliasWords_marked {version : List Char} {d : Char} (hd : isIdentStart d = false)
    (hversion : ∀ c ∈ d :: version, isIdentChar c = true) {before : Option Char} {s t : List Char}
    (hedited : Edited (Policy.marked ("vue@".toList ++ d :: version)) before s t) {w w' : List Char}
    (hw : w' = w ∨ ∃ d x, w' = d :: x ∧ isIdentStart d = false) :
    aliasWords aliases w' t ≤ aliasWords aliases w s := by
  -- The parts of words on both sides are the same, or that of the new text is no start of an alias.
  have hhas : ∀ {w w' : List Char}, (w' = w ∨ ∃ d x, w' = d :: x ∧ isIdentStart d = false) →
      (Assoc.has aliases (String.ofList w')).toNat ≤
        (Assoc.has aliases (String.ofList w)).toNat := by
    rintro w w' (rfl | ⟨d, x, rfl, hd⟩)
    · exact Nat.le_refl _
    · rw [has_digit h hd]
      exact Nat.zero_le _
  have hgoOn : ∀ {w w' : List Char} (x : List Char),
      (w' = w ∨ ∃ d x, w' = d :: x ∧ isIdentStart d = false) →
      w' ++ x = w ++ x ∨ ∃ d y, w' ++ x = d :: y ∧ isIdentStart d = false := by
    rintro w w' x (rfl | ⟨d, y, rfl, hd⟩)
    · exact .inl rfl
    · exact .inr ⟨d, y ++ x, rfl, hd⟩
  induction hedited generalizing w w' with
  | nil => exact hhas hw
  | keep before c hedited ih =>
    rw [aliasWords, aliasWords]
    split
    · exact ih (hgoOn [c] hw)
    · exact Nat.add_le_add (hhas hw) (ih (.inl rfl))
  | @swap before old new s t hold hedited ih =>
    obtain ⟨rfl, version', rfl, -⟩ := hold
    have hname : ∀ c ∈ "vue".toList, isIdentChar c = true := by decide
    have hsign : isIdentChar '@' = false := by decide
    have hsplit : ∀ x : List Char, "vue@".toList ++ x = "vue".toList ++ '@' :: x := fun _ => rfl
    obtain ⟨u, hu⟩ := @exists_aliasWords_le aliases [] version' s
    have hrest := @ih u (d :: version) (.inr ⟨d, version, rfl, hd⟩)
    have hfirst := hhas (hgoOn "vue".toList hw)
    rw [List.append_assoc, List.append_assoc, hsplit, hsplit, aliasWords_word hname,
      aliasWords_word hname, aliasWords, aliasWords, if_neg (by simp [hsign]),
      if_neg (by simp [hsign]), aliasWords_word hversion, List.nil_append]
    omega

/-! ### Lists of classes -/

/-- The words of the fields of a text are those of the text. -/
theorem sum_aliasWords_fields (s : List Char) :
    ((fields s).map (aliasWords aliases [])).sum = aliasWords aliases [] s := by
  have hwalk : ∀ (s current : List Char), ((fieldsFrom current s).map (aliasWords aliases [])).sum =
      aliasWords aliases [] (current.reverse ++ s) := by
    intro s
    have hnil : aliasWords aliases [] [] = 0 := by
      rw [aliasWords, has_eq_false h fun hident => hident.ne_nil rfl, Bool.toNat_false]
    induction s with
    | nil =>
      intro current
      rw [fieldsFrom]
      cases current with
      | nil => exact hnil.symm
      | cons c current => simp
    | cons c s ih =>
      intro current
      rw [fieldsFrom]
      split
      next hc =>
        rw [aliasWords_append_cons (isIdentChar_of_isBlank hc)]
        cases current with
        | nil =>
          rw [List.reverse_nil, hnil, Nat.zero_add]
          exact ih []
        | cons d current =>
          rw [if_neg (by simp), List.map_cons, List.sum_cons, ih]
          rfl
      next hc =>
        rw [ih, List.reverse_cons, List.append_assoc]
        rfl
  exact hwalk s []

/-- The aliases in a list of tokens are counted token by token. -/
theorem aliasWords_intercalate (tokens : List (List Char)) :
    aliasWords aliases [] ([' '].intercalate tokens) =
      (tokens.map (aliasWords aliases [])).sum := by
  have hblank : isIdentChar ' ' = false := by decide
  induction tokens with
  | nil => simp [aliasWords, has_eq_false h fun hident => hident.ne_nil rfl]
  | cons token tokens ih =>
    cases tokens with
    | nil => simp
    | cons next tokens =>
      rw [List.intercalate_cons_cons, List.append_assoc, List.singleton_append,
        aliasWords_append_cons hblank, ih]
      rfl

end Regular

end Rename

/-- Canonical classes hold no aliases of variables that the classes did not hold. -/
theorem Policy.aliasWords_canonicalClasses_le {p : Policy}
    (h : Rename.Regular p.identifierAliases)
    (hclasses : ∀ e ∈ p.classAliases, Rename.aliasWords p.identifierAliases [] e.2.toList = 0)
    (v : List Char) :
    Rename.aliasWords p.identifierAliases [] ([' '].intercalate (p.canonicalClasses v)) ≤
      Rename.aliasWords p.identifierAliases [] v := by
  rw [Rename.aliasWords_intercalate h, ← Rename.sum_aliasWords_fields h v, canonicalClasses]
  refine (sum_map_eraseDups_le _ _).trans ?_
  induction fields v with
  | nil => exact Nat.le_refl _
  | cons token tokens ih =>
    rw [List.flatMap_cons, List.map_append, List.sum_append, List.map_cons, List.sum_cons]
    refine Nat.add_le_add ?_ ih
    split
    next target hget =>
      rw [Rename.sum_aliasWords_fields h, hclasses _ (Assoc.mem_of_get? hget)]
      exact Nat.zero_le _
    next => simp

end PageCompiler
