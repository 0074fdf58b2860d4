import PageCompiler.Fallback.Bundle
import PageCompiler.Proofs.Failure

/-!
# `PageCompiler.Proofs.Fallback.Bundle`: what a usable answer holds

The fragments of a bundle that was read have different, legal names, and are marked as coming from
the service. So a bundle has at most one fragment for a component.
-/

set_option autoImplicit false

namespace PageCompiler.Bundle

open Text

/-- A fragment that was checked has a legal name that is not taken, and its source. -/
theorem check_ok {seen : List String} {name markup : List Char} {f : Fragment}
    (h : check seen name markup = .ok f) :
    isName f.component.toList = true ∧ f.component ∉ seen ∧ f.source = .fallback := by
  simp only [check] at h
  split at h
  · cases h
  · rename_i hname
    split at h
    · cases h
    · rename_i hseen
      split at h
      · cases h
      · split at h
        · cases h
        · cases h
          refine ⟨?_, by simpa using hseen, rfl⟩
          rw [String.toList_ofList]
          simpa using hname

/-- Fragments that were checked one after another have different names. -/
theorem checkAll_ok {seen : List String} {entries : List (List Char × List Char)}
    {fs : List Fragment} (h : checkAll seen entries = .ok fs) :
    (fs.map Fragment.component).Nodup ∧
      ∀ f ∈ fs, isName f.component.toList = true ∧ f.component ∉ seen ∧ f.source = .fallback := by
  induction entries generalizing seen fs with
  | nil =>
    cases h
    simp
  | cons entry entries ih =>
    obtain ⟨name, markup⟩ := entry
    obtain ⟨f, hcheck, h⟩ := Failure.bind_ok h
    obtain ⟨rest, hrest, h⟩ := Failure.bind_ok h
    cases h
    obtain ⟨hnodup, hall⟩ := ih hrest
    refine ⟨?_, ?_⟩
    · rw [List.map_cons, List.nodup_cons]
      refine ⟨fun hmem => ?_, hnodup⟩
      obtain ⟨g, hg, hname⟩ := List.mem_map.1 hmem
      exact (hall g hg).2.1 (hname ▸ List.mem_cons_self)
    · intro g hg
      rcases List.mem_cons.1 hg with rfl | hg
      · exact check_ok hcheck
      · obtain ⟨hname, hseen, hsource⟩ := hall g hg
        exact ⟨hname, fun hmem => hseen (List.mem_cons_of_mem _ hmem), hsource⟩

/-- The fragments of a bundle have different, legal names, and come from the service. -/
structure WellFormed (b : Bundle) : Prop where
  names_nodup : (b.fragments.map Fragment.component).Nodup
  isName : ∀ f ∈ b.fragments, isName f.component.toList = true
  source : ∀ f ∈ b.fragments, f.source = .fallback

/-- An answer that was read has one fragment for each of its names. -/
theorem wellFormed_of_read {response : String} {b : Bundle} (h : read response = .ok b) :
    b.WellFormed := by
  unfold read at h
  split at h
  · cases h
  · obtain ⟨fs, hcheck, h⟩ := Failure.bind_ok h
    obtain ⟨hnodup, hall⟩ := checkAll_ok hcheck
    have hfragments : b.fragments = fs := by
      split at h
      · cases h
      · cases h
        rfl
    refine ⟨?_, ?_, ?_⟩
    · rw [hfragments]
      exact hnodup
    · rw [hfragments]
      exact fun f hf => (hall f hf).1
    · rw [hfragments]
      exact fun f hf => (hall f hf).2.2

/-- The fragment of a component carries its name. -/
theorem get?_eq_some {b : Bundle} {name : String} {f : Fragment} (h : b.get? name = some f) :
    f ∈ b.fragments ∧ f.component = name := by
  have hname := List.find?_some h
  exact ⟨List.mem_of_find?_eq_some h, beq_iff_eq.1 hname⟩

theorem get?_isSome_iff {b : Bundle} {name : String} :
    (b.get? name).isSome = true ↔ ∃ f ∈ b.fragments, f.component = name := by
  rw [get?, List.find?_isSome]
  simp only [beq_iff_eq]

end PageCompiler.Bundle
