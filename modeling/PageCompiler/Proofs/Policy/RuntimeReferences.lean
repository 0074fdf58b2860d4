import PageCompiler.Proofs.Failure
import PageCompiler.Proofs.Policy.Stable.Script

/-!
# `PageCompiler.Proofs.Policy.RuntimeReferences`: what a page says about its runtime

The references of a text are the markers in it, each as far as it goes. A policy replaces them and
puts a header with its own marker in front of the script. `references_canonical_iff` says when all
references of the new page are the marker of the policy: a marker of the policy has to be a marker
that is found as a whole (`IsMarker`), unless the page has no references at all.

This is not for granted. The check of a policy file (`isMarker`) takes marks and joiners of letters
for characters of a version, and the search for markers ends in front of them. Of a marker with an
accent of its own only the part in front of the accent is found, and the header alone shows it.
-/

set_option autoImplicit false

namespace PageCompiler.Policy

open Text

/-! ### References -/

/-- The runtime references of a text. -/
def references (s : List Char) : List (List Char) :=
  findAll (textFound marker) s

/-- A reference goes as far as its version. -/
theorem references_marker {version rest : List Char} (hne : version ≠ [])
    (hversion : ∀ c ∈ version, isVersionChar c = true)
    (hrest : followedBy isVersionChar rest = false) :
    references ("vue@".toList ++ (version ++ rest)) =
      ("vue@".toList ++ version) :: references rest := by
  have hmarker : marker none (("vue@".toList ++ version) ++ rest) = some ((), rest) :=
    marker_eq_some_iff.2 ⟨version, hne, hversion, hrest, List.append_assoc _ _ _⟩
  rw [← List.append_assoc]
  exact findAll_found (fun _ _ _ => rfl) (by simp) (textFound_append hmarker)

theorem references_plain {c : Char} {s : List Char} (h : marker none (c :: s) = none) :
    references (c :: s) = references s :=
  findAll_plain (fun _ _ _ => rfl) (textFound_eq_none h)

/-- What is found as a reference is a marker. -/
theorem isMarker_of_mem_references {m s : List Char} (h : m ∈ references s) : IsMarker m := by
  induction s using marker_induction with
  | nil => cases h
  | found version rest hne hversion hrest ih =>
    rw [references_marker hne hversion hrest] at h
    rcases List.mem_cons.1 h with rfl | h
    · exact ⟨version, hne, hversion, rfl⟩
    · exact ih h
  | plain c s hc ih =>
    rw [references_plain hc] at h
    exact ih h

/-- A character that no marker holds keeps the references on both sides apart. -/
theorem references_append_cons {d : Char} (hd : d ∉ "vue@".toList)
    (hversion : isVersionChar d = false) (x s : List Char) :
    references (x ++ d :: s) = references x ++ references s := by
  induction x using marker_induction with
  | nil =>
    have hne : d ≠ 'v' := by
      rintro rfl
      exact hd (by decide)
    exact references_plain (marker_cons_ne hne)
  | found version rest hne hchars hrest ih =>
    -- The version ends in front of the rest, or in front of the character if nothing is left.
    have hend : followedBy isVersionChar (rest ++ d :: s) = false := by
      cases rest with
      | nil => exact hversion
      | cons c rest => exact hrest
    rw [references_marker hne hchars hrest, List.append_assoc, List.append_assoc,
      references_marker hne hchars hend, ih]
    rfl
  | plain c x hc ih =>
    have hnone : marker none (c :: (x ++ d :: s)) = none := by
      rw [← List.cons_append, marker_append_stop hd hversion, hc]
      rfl
    rw [List.cons_append, references_plain hnone, references_plain hc, ih]

/-- In front of its body a script refers to the runtime as its marker does. -/
theorem references_headed (p : Policy) (body : List Char) :
    references (p.headed body) = references p.runtimeMarker.toList ++ references body := by
  have htext : p.headed body = "/*".toList ++ ' ' :: ("runtime:".toList ++ ' ' ::
      (p.runtimeMarker.toList ++ ' ' :: ("*/".toList ++ '\n' :: body))) := by
    rw [headed, toList_runtimeHeader]
    simp
  have hblank : ∀ x s : List Char, references (x ++ ' ' :: s) = references x ++ references s :=
    references_append_cons (by decide) (by decide)
  have hfeed : ∀ x s : List Char, references (x ++ '\n' :: s) = references x ++ references s :=
    references_append_cons (by decide) (by decide)
  rw [htext, hblank, hblank, hblank, hfeed]
  rfl

/-! ### References under a policy -/

section Canonical

variable {p : Policy} (hmarker : IsMarker p.runtimeMarker.toList)

include hmarker

/-- Once the markers of a text are replaced, all references are the marker of the policy. -/
theorem eq_of_mem_references_replaceMarkers {m s : List Char}
    (h : m ∈ references (p.replaceMarkers s)) : m = p.runtimeMarker.toList := by
  induction s using marker_induction with
  | nil => cases h
  | found version rest hne hversion hrest ih =>
    obtain ⟨version', hne', hversion', hm⟩ := id hmarker
    -- The new marker goes no further than it is long, since no version goes on behind it.
    have hend : followedBy isVersionChar (p.replaceMarkers rest) = false := by
      rw [followedBy_replaceMarkers hmarker, hrest]
    rw [replaceMarkers_marker p hne hversion hrest, hm, List.append_assoc,
      references_marker hne' hversion' hend] at h
    rcases List.mem_cons.1 h with rfl | h
    · exact hm.symm
    · exact ih h
  | plain c s hc ih =>
    rw [replaceMarkers_plain p hc, references_plain (marker_replaceMarkers hmarker hc)] at h
    exact ih h

/-- A script under canonical names holds no other markers: removing headers and line feeds puts none
together. -/
theorem replaceMarkers_canonicalScript (s : List Char) :
    p.replaceMarkers (p.canonicalScript s) = p.canonicalScript s := by
  obtain ⟨body, hscript, hbody, -⟩ := exists_body hmarker s
  rw [hscript, replaceMarkers_headed hmarker, hbody]

end Canonical

/-- The script of a page to which a policy was applied starts with the header of the policy, so it
has the references that the marker of the policy has. All references of the page are the marker of
the policy exactly if the marker is found as a whole, or if the page has no references. -/
theorem references_canonical_iff (p : Policy) (a b : Artifact) (h : p.apply a = .ok b) :
    (∃ body, b.script.toList = (Artifact.runtimeHeader p.runtimeMarker).toList ++ '\n' :: body ∧
      references b.script.toList = references p.runtimeMarker.toList ++ references body) ∧
    ((∀ text ∈ [b.markup, b.script, b.style], ∀ m ∈ references text.toList,
        m = p.runtimeMarker.toList) ↔
      IsMarker p.runtimeMarker.toList ∨
        ∀ text ∈ [b.markup, b.script, b.style], references text.toList = []) := by
  obtain ⟨-, style, -, rfl⟩ := apply_eq_ok_iff.1 h
  simp only [List.forall_mem_cons, List.not_mem_nil, false_implies, implies_true, and_true,
    String.toList_ofList]
  refine ⟨⟨_, rfl, references_headed p _⟩, ?_, ?_⟩
  · rintro ⟨hmarkup, hscript, hstyle⟩
    by_cases hmarker : IsMarker p.runtimeMarker.toList
    · exact .inl hmarker
    · -- A reference is found as a whole, so none of them is the marker.
      have hnone : ∀ {s : List Char}, (∀ m ∈ references s, m = p.runtimeMarker.toList) →
          references s = [] := by
        intro s hs
        rw [List.eq_nil_iff_forall_not_mem]
        intro m hm
        exact hmarker (hs m hm ▸ isMarker_of_mem_references hm)
      exact .inr ⟨hnone hmarkup, hnone hscript, hnone hstyle⟩
  · rintro (hmarker | ⟨hmarkup, hscript, hstyle⟩)
    · refine ⟨?_, ?_, ?_⟩
      · intro m hm
        exact eq_of_mem_references_replaceMarkers hmarker hm
      · intro m hm
        rw [← replaceMarkers_canonicalScript hmarker] at hm
        exact eq_of_mem_references_replaceMarkers hmarker hm
      · intro m hm
        exact eq_of_mem_references_replaceMarkers hmarker hm
    · rw [hmarkup, hscript, hstyle]
      simp

/-- A page with references that end in dots and dashes, that follow each other without a blank, and
that stand around a header. -/
def scatteredReferences : Artifact :=
  { scriptOnly "load('vue@vue@2');\n\n/* runtime: vue@2.7 */ vue@\n/* runtime: x */\n2.7" with
    markup := "<p class=\"vue@2.-\">vue@next</p>",
    style := "/* vue@1vue@2 */" }

/-- A policy whose marker ends with an accent of its own. -/
def accentedMarker : Policy :=
  { Policy.blank with runtimeMarker := "vue@3-e\u0301" }

/-- All references become the marker, except for the one with an accent. -/
theorem references_canonical_iff_accented :
    (∃ b, Policy.default.apply scatteredReferences = .ok b ∧
      ∀ text ∈ [b.markup, b.script, b.style], ∀ m ∈ references text.toList, m = "vue@3".toList) ∧
    isMarker accentedMarker.runtimeMarker = true ∧
    ∃ b, accentedMarker.apply (scriptOnly "// vue@3-e\u0301 ready") = .ok b ∧
      b.script = "/* runtime: vue@3-e\u0301 */\n// vue@3-e\u0301\u0301 ready" ∧
      ¬∀ text ∈ [b.markup, b.script, b.style], ∀ m ∈ references text.toList,
        m = accentedMarker.runtimeMarker.toList := by
  obtain ⟨b, hb, -⟩ := @Failure.exists_ok _ _ (Policy.default.apply scatteredReferences)
    (fun _ => true) (by decide +kernel)
  obtain ⟨b', hb', hscript⟩ := @Failure.exists_ok _ _
    (accentedMarker.apply (scriptOnly "// vue@3-e\u0301 ready"))
    (fun b => b.script == "/* runtime: vue@3-e\u0301 */\n// vue@3-e\u0301\u0301 ready")
    (by decide +kernel)
  have hscript := eq_of_beq hscript
  obtain ⟨-, hall⟩ := references_canonical_iff _ _ b hb
  obtain ⟨-, hall'⟩ := references_canonical_iff _ _ b' hb'
  refine ⟨⟨b, hb, hall.2 (.inl (by decide))⟩, by decide +kernel, b', hb', hscript, ?_⟩
  rw [hall', not_or]
  refine ⟨by decide +kernel, fun hnone => ?_⟩
  have hempty := hnone b'.script (by simp)
  rw [hscript] at hempty
  revert hempty
  decide +kernel

end PageCompiler.Policy
