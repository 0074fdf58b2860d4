import PageCompiler.Policy.Load
import PageCompiler.Proofs.Policy.AliasWords

/-!
# `PageCompiler.Proofs.Policy.Plain`: policies of plain names

A policy file may put any text into its tables. `Plain` says that the texts are what they are meant
to be: names of variables, classes, and a marker with a version number. The check of a file
(`badTarget?`) adds that no target is an alias again.
-/

set_option autoImplicit false

namespace PageCompiler.Policy

open Text

/-- Digits are characters of words, and no variable starts with one. -/
theorem digit_in_words {c : Char} (h : isAsciiDigit c = true) :
    isWord c = true ∧ isIdentStart c = false := by
  have hdigits : ∀ n < 10, isWord (Char.ofNat (n + 48)) = true ∧
      isIdentStart (Char.ofNat (n + 48)) = false := by decide
  have hrange : 48 ≤ c.toNat ∧ c.toNat ≤ 57 := by
    simpa [isAsciiDigit, Char.le_def, UInt32.le_iff_toNat_le] using h
  have hc := hdigits (c.toNat - 48) (by omega)
  rwa [Nat.sub_add_cancel hrange.1, Char.ofNat_toNat] at hc

/-- A class of a style: characters of names. -/
def IsClass (w : List Char) : Prop :=
  w ≠ [] ∧ ∀ c ∈ w, isNameChar c = true

instance (w : List Char) : Decidable (IsClass w) :=
  inferInstanceAs (Decidable (w ≠ [] ∧ ∀ c ∈ w, isNameChar c = true))

/-- The names of a policy are variables and classes, and its marker has a version number. -/
structure Plain (p : Policy) : Prop where
  names : Rename.Regular p.identifierAliases
  classes : ∀ e ∈ p.classAliases, IsClass e.1.toList ∧ ∀ token ∈ fields e.2.toList, IsClass token
  /-- No alias of a variable is a word of what replaces a class. -/
  apart : ∀ e ∈ p.classAliases, Rename.aliasWords p.identifierAliases [] e.2.toList = 0
  marker : ∃ d version, (∀ c ∈ d :: version, isAsciiDigit c = true) ∧
    p.runtimeMarker.toList = "vue@".toList ++ d :: version

theorem plain_default : Policy.default.Plain where
  names := Markup.regular_default
  classes := by decide
  apart := by decide
  marker := ⟨'3', [], by decide, by decide⟩

/-- The check of a policy file. -/
theorem badTarget?_eq_none_iff {p : Policy} :
    p.badTarget? = none ↔
      (∀ e ∈ p.identifierAliases, e.2 ≠ "" ∧ Assoc.has p.identifierAliases e.2 = false) ∧
      ∀ e ∈ p.classAliases, fields e.2.toList ≠ [] ∧
        ∀ token ∈ fields e.2.toList, Assoc.has p.classAliases (String.ofList token) = false := by
  unfold badTarget?
  simp only
  split
  next old target hsome =>
    have hfound := List.find?_some hsome
    have hmem := List.mem_of_find?_eq_some hsome
    simp only [reduceCtorEq, false_iff, not_and_or]
    left
    intro hall
    obtain ⟨hne, hhas⟩ := hall _ hmem
    simp [hhas, hne] at hfound
  next old target hnone hsome =>
    have hfound := List.find?_some hsome
    have hmem := List.mem_of_find?_eq_some hsome
    simp only [reduceCtorEq, false_iff, not_and_or]
    right
    intro hall
    obtain ⟨hne, hhas⟩ := hall _ hmem
    simp only [Bool.or_eq_true, List.isEmpty_iff, List.any_eq_true] at hfound
    rcases hfound with hempty | ⟨token, htoken, hfound⟩
    · exact hne hempty
    · rw [hhas token htoken] at hfound
      cases hfound
  next hnone hnone' =>
    rw [List.find?_eq_none] at hnone hnone'
    simp only [true_iff]
    refine ⟨fun e he => ?_, fun e he => ?_⟩
    · have hgood := hnone e he
      simp only [Bool.or_eq_true, not_or, Bool.not_eq_true, String.isEmpty_iff] at hgood
      exact hgood
    · have hgood := hnone' e he
      simp only [Bool.or_eq_true, not_or, List.isEmpty_iff, List.any_eq_true, not_exists, not_and,
        Bool.not_eq_true] at hgood
      exact hgood

namespace Plain

variable {p : Policy} (h : p.Plain)

include h

theorem isMarker : IsMarker p.runtimeMarker.toList := by
  obtain ⟨d, version, hdigits, hm⟩ := h.marker
  refine ⟨d :: version, by simp, fun c hc => ?_, hm⟩
  have hword := (digit_in_words (hdigits c hc)).1
  simp [isVersionChar, hword]

/-- Renaming neither takes nor puts in a character that is in no word. -/
theorem count_renamed {d : Char} (hd : isIdentChar d = false) {before : Option Char}
    {s t : List Char} (hedited : Edited (renamed p.identifierAliases) before s t) :
    t.count d = s.count d := by
  have hnot : ∀ {name : List Char}, IsIdent name → d ∉ name := by
    intro name hname hmem
    rw [hname.chars d hmem] at hd
    cases hd
  refine hedited.count_eq ?_
  rintro before old new rest ⟨target, hget, rfl, -⟩
  obtain ⟨hold, hnew⟩ := h.names _ (Assoc.mem_of_get? hget)
  rw [String.toList_ofList] at hold
  exact ⟨hnot hold, hnot hnew⟩

theorem count_run {d : Char} (hd : isIdentChar d = false) (s : List Char) :
    (Rename.run p.identifierAliases s).count d = s.count d := by
  refine @count_renamed p h d hd none s _ (edited_run h.names s ?_)
  intro hbefore
  cases hbefore

/-- Markers do not raise the number of aliases. -/
theorem aliasWords_replaceMarkers (s : List Char) :
    Rename.aliasWords p.identifierAliases [] (p.replaceMarkers s) ≤
      Rename.aliasWords p.identifierAliases [] s := by
  obtain ⟨d, version, hdigits, hm⟩ := h.marker
  have hedited := edited_replaceMarkers p s
  rw [hm] at hedited
  refine Rename.aliasWords_marked h.names ?_ ?_ hedited (.inl rfl)
  · exact (digit_in_words (hdigits d (by simp))).2
  · intro c hc
    have hword := (digit_in_words (hdigits c hc)).1
    simp [isIdentChar, hword]

end Plain

end PageCompiler.Policy
