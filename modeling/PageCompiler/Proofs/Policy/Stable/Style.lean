import PageCompiler.Proofs.Policy.Plain
import PageCompiler.Proofs.Policy.Selectors

/-!
# `PageCompiler.Proofs.Policy.Stable.Style`: the style under a policy

A policy replaces the selectors of aliases and then the markers. Once no selector of an alias is
left, no marker brings one back (`freeOf_replaceMarkers`), so a policy leaves a style alone that it
was applied to before (`renameSelectors_again`).
-/

set_option autoImplicit false

namespace PageCompiler.Policy

open Text

variable {p : Policy} (h : p.Plain)

include h

theorem Plain.classNames : ClassNames p.classAliases := fun e he =>
  ⟨(h.classes e he).1.2, fun token htoken => ((h.classes e he).2 token htoken).2⟩

/-- A word at the start of a text stays if markers are replaced. -/
theorem takeWhile_replaceMarkers (s : List Char) :
    (p.replaceMarkers s).takeWhile isNameChar = s.takeWhile isNameChar := by
  obtain ⟨d, version, -, hm⟩ := h.marker
  induction s using marker_induction with
  | nil => rfl
  | found version' rest hne hversion hrest ih =>
    rw [replaceMarkers_marker p hne hversion hrest, hm]
    rfl
  | plain c s hc ih =>
    rw [replaceMarkers_plain p hc, List.takeWhile_cons, List.takeWhile_cons, ih]

/-- Markers bring no selector back. -/
theorem freeOf_replaceMarkers {name : String} (hname : ∀ c ∈ name.toList, isNameChar c = true)
    {s : List Char} (hs : FreeOf name s) : FreeOf name (p.replaceMarkers s) := by
  induction s using marker_induction with
  | nil => exact freeOf_nil name
  | found version rest hne hversion hrest ih =>
    obtain ⟨d, version', hdigits, hm⟩ := h.marker
    rw [replaceMarkers_marker p hne hversion hrest, hm]
    have hsuffix : rest <:+ "vue@".toList ++ (version ++ rest) :=
      (List.suffix_append _ _).trans (List.suffix_append _ _)
    refine (ih (hs.of_suffix hsuffix)).append_left ?_
    rw [List.mem_append, not_or]
    exact ⟨by decide, fun hmem => absurd (hdigits _ hmem) (by decide)⟩
  | plain c s hc ih =>
    obtain ⟨hnone, hs⟩ := freeOf_cons.1 hs
    rw [replaceMarkers_plain p hc]
    refine freeOf_cons.2 ⟨?_, ih hs⟩
    by_cases hpoint : c = '.'
    · subst hpoint
      rw [selector_point_iff hname] at hnone ⊢
      rw [takeWhile_replaceMarkers h]
      exact hnone
    · exact selector_of_ne hpoint

/-- A style to which a policy was applied is left as it is. -/
theorem renameSelectors_again (hchecked : p.badTarget? = none) {style renamed : List Char}
    (hrenamed : p.renameSelectors style = .ok renamed) :
    p.renameSelectors (p.replaceMarkers renamed) = .ok (p.replaceMarkers renamed) := by
  have hresolved : Resolved p.classAliases := (badTarget?_eq_none_iff.1 hchecked).2
  rw [renameSelectors_eq h.classNames hresolved] at hrenamed ⊢
  cases hrenamed
  refine congrArg Except.ok (renameAtOnce_of_freeOf h.classNames fun e he => ?_)
  exact freeOf_replaceMarkers h (h.classNames e he).1
    (freeOf_renameAtOnce h.classNames hresolved he style)

end PageCompiler.Policy
