import PageCompiler.Proofs.Failure
import PageCompiler.Proofs.Policy.ClassLists
import PageCompiler.Proofs.Policy.Lexemes
import PageCompiler.Proofs.Policy.Stable.Script
import PageCompiler.Proofs.Policy.Stable.Style

/-!
# `PageCompiler.Proofs.Policy.Stable`: applying a policy twice

`Settled` is the form that a policy is meant to give to an artifact: no alias in the code of markup
and script, canonical lists of classes, one header, and no alias declared next to its canonical
name. `apply_again_iff` says that a second application of a policy changes nothing exactly if the
first one reached this form. It does not always: markers are replaced behind the passes over classes
and code, and the removal of a header can uncover another one.
-/

set_option autoImplicit false

namespace PageCompiler.Policy

open Text

/-- Markup in the form that a policy is meant to give to it: no alias stands as a word in the value
of a directive or between double braces, and all lists of classes are tidy. -/
structure MarkupSettled (p : Policy) (m : List Char) : Prop where
  directives : ∀ a ∈ findAll (quotedAttr directiveName?) m,
    Rename.Unaliased p.identifierAliases a.2
  interpolations : ∀ code ∈ findAll interpolation m, Rename.Unaliased p.identifierAliases code
  classes : p.classAliases ≠ [] → ∀ a ∈ findAll (quotedAttr className?) m, p.Tidy a.2

/-- An artifact in the form that a policy is meant to give to it: settled markup, a script in which
no alias stands as a word, exactly one header, and no alias declared next to its canonical name. -/
structure Settled (p : Policy) (b : Artifact) : Prop where
  markup : p.MarkupSettled b.markup.toList
  code : Rename.Unaliased p.identifierAliases b.script.toList
  header : (findAll header b.script.toList).length = 1
  members : p.conflicts b.script = []

instance (p : Policy) (m : List Char) : Decidable (p.MarkupSettled m) :=
  decidable_of_iff
    ((∀ a ∈ findAll (quotedAttr directiveName?) m, Rename.Unaliased p.identifierAliases a.2) ∧
      (∀ code ∈ findAll interpolation m, Rename.Unaliased p.identifierAliases code) ∧
      (p.classAliases ≠ [] → ∀ a ∈ findAll (quotedAttr className?) m, p.Tidy a.2))
    ⟨fun h => ⟨h.1, h.2.1, h.2.2⟩, fun h => ⟨h.directives, h.interpolations, h.classes⟩⟩

instance (p : Policy) (b : Artifact) : Decidable (p.Settled b) :=
  decidable_of_iff
    (p.MarkupSettled b.markup.toList ∧
      Rename.Unaliased p.identifierAliases b.script.toList ∧
      (findAll header b.script.toList).length = 1 ∧ p.conflicts b.script = [])
    ⟨fun h => ⟨h.1, h.2.1, h.2.2.1, h.2.2.2⟩, fun h => ⟨h.markup, h.code, h.header, h.members⟩⟩

/-- The parts of markup that are left as they are are those without aliases and with tidy
classes. -/
theorem markupKept_iff {p : Policy} (hplain : p.Plain) (hchecked : p.badTarget? = none)
    {m : List Char} : p.MarkupKept m ↔ p.MarkupSettled m := by
  obtain ⟨htargets, hresolved⟩ := badTarget?_eq_none_iff.1 hchecked
  have hcode : ∀ {code : List Char}, Rename.run p.identifierAliases code = code ↔
      Rename.Unaliased p.identifierAliases code :=
    Rename.run_eq_self_iff hplain.names fun e he => (htargets e he).2
  constructor
  · rintro ⟨hdirectives, hinterpolations, hclasses⟩
    exact ⟨fun a ha => hcode.1 (hdirectives a ha), fun code ha => hcode.1 (hinterpolations code ha),
      fun hne a ha => (classText_eq_self_iff hresolved).1 (hclasses hne a ha)⟩
  · rintro ⟨hdirectives, hinterpolations, hclasses⟩
    exact ⟨fun a ha => hcode.2 (hdirectives a ha), fun code ha => hcode.2 (hinterpolations code ha),
      fun hne a ha => (classText_eq_self_iff hresolved).2 (hclasses hne a ha)⟩

/-- A policy leaves an artifact as it is if it leaves all parts as they are. -/
theorem apply_eq_self_iff {p : Policy} {b : Artifact} :
    p.apply b = .ok b ↔ p.conflicts b.script = [] ∧
      p.canonicalMarkup b.markup.toList = b.markup.toList ∧
      p.canonicalScript b.script.toList = b.script.toList ∧
      ∃ style, p.renameSelectors b.style.toList = .ok style ∧
        p.replaceMarkers style = b.style.toList := by
  have hstring : ∀ {x : List Char} {s : String}, s = String.ofList x ↔ x = s.toList := by
    intro x s
    rw [String.ext_iff, String.toList_ofList, eq_comm]
  rw [apply_eq_ok_iff]
  refine and_congr_right fun _ => ?_
  constructor
  · rintro ⟨style, hstyle, hb⟩
    exact ⟨hstring.1 (congrArg Artifact.markup hb), hstring.1 (congrArg Artifact.script hb), style,
      hstyle, hstring.1 (congrArg Artifact.style hb)⟩
  · rintro ⟨hmarkup, hscript, style, hstyle, hmarkers⟩
    refine ⟨style, hstyle, ?_⟩
    rw [hmarkup, hscript, hmarkers, String.ofList_toList, String.ofList_toList,
      String.ofList_toList]

/-- A policy of plain names was applied to an artifact. A second application keeps the style, and it
returns the same artifact exactly if this is in the form that the policy is meant to give. -/
theorem apply_again_iff (p : Policy) (a b : Artifact) (hplain : p.Plain)
    (hchecked : p.badTarget? = none) (h : p.apply a = .ok b) :
    (∀ c, p.apply b = .ok c → c.style = b.style) ∧ (p.apply b = .ok b ↔ p.Settled b) := by
  obtain ⟨-, style, hstyle, hb⟩ := apply_eq_ok_iff.1 h
  have hmarkup : p.replaceMarkers b.markup.toList = b.markup.toList := by
    rw [hb, String.toList_ofList]
    exact replaceMarkers_idem hplain.isMarker _
  have hscript : b.script.toList = p.canonicalScript a.script.toList := by
    rw [hb, String.toList_ofList]
  have hmarkers : p.replaceMarkers b.style.toList = b.style.toList := by
    rw [hb, String.toList_ofList]
    exact replaceMarkers_idem hplain.isMarker style
  have hselectors : p.renameSelectors b.style.toList = .ok b.style.toList := by
    rw [hb, String.toList_ofList]
    exact renameSelectors_again hplain hchecked hstyle
  constructor
  · intro c hc
    obtain ⟨-, style', hstyle', rfl⟩ := apply_eq_ok_iff.1 hc
    rw [hselectors] at hstyle'
    cases hstyle'
    show String.ofList (p.replaceMarkers b.style.toList) = b.style
    rw [hmarkers, String.ofList_toList]
  · obtain ⟨htargets, -⟩ := badTarget?_eq_none_iff.1 hchecked
    rw [apply_eq_self_iff, canonicalMarkup_eq_self_iff hplain hchecked hmarkup,
      markupKept_iff hplain hchecked, canonicalScript_eq_self_iff hplain hchecked hscript,
      Rename.run_eq_self_iff hplain.names fun e he => (htargets e he).2]
    constructor
    · rintro ⟨hmembers, hmarkup, ⟨hcode, hheader⟩, -⟩
      exact ⟨hmarkup, hcode, hheader, hmembers⟩
    · rintro ⟨hmarkup, hcode, hheader, hmembers⟩
      exact ⟨hmembers, hmarkup, ⟨hcode, hheader⟩, b.style.toList, hselectors, hmarkers⟩

/-- A button with aliases in all places. -/
def aliasedButton : Artifact :=
  { scriptOnly "methods: \x7b\n  goNext() \x7b\x7d,\n\x7d" with
    markup := "<p class=\"primary-btn btn\" @click=\"goNext\">\x7b\x7b appName \x7d\x7d vue@2</p>",
    style := ".primary-btn \x7b\x7d" }

/-- One application is enough for a button, but not for a script with two headers in one line: it
removes the first and uncovers the second. -/
theorem apply_again_iff_headers :
    (∃ b, Policy.default.apply aliasedButton = .ok b ∧ Policy.default.apply b = .ok b) ∧
    ∃ b, Policy.default.apply
        (scriptOnly "/* runtime: vue@2 *//* runtime: vue@3 */\nstart();") = .ok b ∧
      Policy.default.apply b ≠ .ok b := by
  have hchecked : Policy.default.badTarget? = none := by decide +kernel
  obtain ⟨b, hb, hsettled⟩ := @Failure.exists_ok _ _ (Policy.default.apply aliasedButton)
    (fun b => decide (Policy.default.Settled b)) (by decide +kernel)
  obtain ⟨b', hb', hsettled'⟩ := @Failure.exists_ok _ _ (Policy.default.apply
      (scriptOnly "/* runtime: vue@2 *//* runtime: vue@3 */\nstart();"))
    (fun b => !decide (Policy.default.Settled b)) (by decide +kernel)
  obtain ⟨-, hagain⟩ := apply_again_iff _ _ b plain_default hchecked hb
  obtain ⟨-, hagain'⟩ := apply_again_iff _ _ b' plain_default hchecked hb'
  refine ⟨⟨b, hb, hagain.2 (by simpa using hsettled)⟩, b', hb', ?_⟩
  rw [ne_eq, hagain']
  simpa using hsettled'

end PageCompiler.Policy
