import PageCompiler.Analysis
import PageCompiler.Proofs.Document.Invariant
import PageCompiler.Proofs.Failure

/-!
# `PageCompiler.Proofs.Analysis`: the analysis of a document that was read

Every component of a document that was read has a text, so its analysis does not fail:
`classify_eq` says what it comes to. A component without a text stops the analysis
(`classify_of_empty`). The places of the components are different, so a component is
found again in the analysis under its place (`patternFor_eq`).
-/

set_option autoImplicit false

namespace PageCompiler

namespace Analysis

/-- What is known about a component that has a text. -/
def classification (r : Registry) (c : Component) : Classification :=
  { component := c.name, inSection := c.inSection, declaredType := c.patternName,
    resolved := resolve r c,
    complexityHits := complexityKeywords.filter fun k => Keyword.occursIn k c.rawText }

theorem classifyComponent_eq (r : Registry) {c : Component} (h : c.rawText ≠ "") :
    classifyComponent r c = .ok (classification r c) := by
  rw [classifyComponent, if_neg (by simpa using h)]
  rfl

/-- The analysis of a document in which every component has a text. -/
theorem classify_of_texts (r : Registry) {d : Document} (h : ∀ c ∈ d.components, c.rawText ≠ "") :
    classify r d = .ok (ofClassifications (d.components.map (classification r))) := by
  rw [classify, Failure.mapM_ok fun c hc => classifyComponent_eq r (h c hc)]
  rfl

/-- The analysis of a well-formed document. -/
theorem classify_eq (r : Registry) {d : Document} (h : d.WellFormed) :
    classify r d = .ok (ofClassifications (d.components.map (classification r))) :=
  classify_of_texts r fun _ hc => (h.component hc).2

/-- The first component without a text stops the analysis. -/
theorem classify_of_empty (r : Registry) {d : Document} {before after : List Component}
    {c : Component} (hsplit : d.components = before ++ c :: after)
    (hbefore : ∀ x ∈ before, x.rawText ≠ "") (hc : c.rawText = "") :
    classify r d = .error { component := c.name } := by
  have herror : classifyComponent r c = .error { component := c.name } := by
    rw [classifyComponent, if_pos (by simp [hc])]
  rw [classify, hsplit, List.mapM_append,
    Failure.mapM_ok fun x hx => classifyComponent_eq r (hbefore x hx), List.mapM_cons, herror]
  rfl

/-- Whether the analysis of a document stops, and where, does not depend on the registry. -/
theorem classify_cases (d : Document) :
    (∃ e, ∀ r, classify r d = .error e) ∨
      ∀ r, classify r d = .ok (ofClassifications (d.components.map (classification r))) := by
  cases hfind : d.components.find? fun c => c.rawText == "" with
  | none =>
    refine .inr fun r => classify_of_texts r fun c hc => ?_
    simpa using List.find?_eq_none.1 hfind c hc
  | some c =>
    obtain ⟨hc, before, after, hsplit, hbefore⟩ := List.find?_eq_some_iff_append.1 hfind
    refine .inl ⟨_, fun r => classify_of_empty r hsplit (fun x hx => ?_) (beq_iff_eq.1 hc)⟩
    simpa using hbefore x hx

/-- A component of a well-formed document is found under its place. -/
theorem patternFor_eq (r : Registry) {d : Document} (h : d.WellFormed) {c : Component}
    (hc : c ∈ d.components) :
    patternFor (ofClassifications (d.components.map (classification r))) c.name c.inSection =
      (resolve r c).map Prod.fst := by
  have hfind : (d.components.find? fun c' => c'.name == c.name && c'.inSection == c.inSection) =
      some c := by
    obtain ⟨before, after, hsplit, hbefore, -⟩ := h.split hc
    rw [hsplit, List.find?_append, List.find?_eq_none.2, Option.none_or,
      List.find?_cons_of_pos (by simp)]
    intro c' hc' hplace
    rw [Bool.and_eq_true, beq_iff_eq, beq_iff_eq] at hplace
    exact hbefore c' hc' (Prod.ext hplace.2 hplace.1)
  show ((d.components.map (classification r)).find? fun k =>
    k.component == c.name && k.inSection == c.inSection).bind Classification.patternId = _
  rw [List.find?_map]
  show ((d.components.find? fun c' => c'.name == c.name && c'.inSection == c.inSection).map
    (classification r)).bind _ = _
  rw [hfind]
  rfl

/-- An analysis counts every pattern as taken that one of its components took. -/
theorem knownPatternFor_eq_patternFor (ks : List Classification) (component inSection : String) :
    knownPatternFor (ofClassifications ks) component inSection =
      patternFor (ofClassifications ks) component inSection := by
  rw [knownPatternFor]
  cases hid : patternFor (ofClassifications ks) component inSection with
  | none => rfl
  | some id =>
    obtain ⟨k, hk, hid⟩ := Option.bind_eq_some_iff.1 hid
    have hknown : id ∈ (ofClassifications ks).knownPatterns :=
      List.mem_eraseDups.2 (List.mem_filterMap.2 ⟨k, List.mem_of_find?_eq_some hk, hid⟩)
    rw [Option.filter_some, if_pos (List.contains_iff_mem.2 hknown)]

/-- A pattern that a component takes is registered. -/
theorem get?_of_resolve {r : Registry} {c : Component} {id : String} {kind : MatchKind}
    (h : resolve r c = some (id, kind)) : ∃ p, r.get? id = some p := by
  have hmem : ∃ p ∈ r.patterns, p.id = id := by
    have hsemantic : ∀ {id : String}, semanticMatch? r c.rawText = some id →
        ∃ p ∈ r.patterns, p.id = id := by
      intro id hid
      obtain ⟨p, hp, rfl⟩ := Option.map_eq_some_iff.1 hid
      exact ⟨p, List.mem_of_find?_eq_some hp, rfl⟩
    simp only [resolve] at h
    split at h
    · split at h
      · rename_i hhas
        obtain ⟨p, hp, hid⟩ := List.any_eq_true.1 hhas
        cases h
        exact ⟨p, hp, beq_iff_eq.1 hid⟩
      · obtain ⟨id', hid, heq⟩ := Option.map_eq_some_iff.1 h
        cases heq
        exact hsemantic hid
    · obtain ⟨id', hid, heq⟩ := Option.map_eq_some_iff.1 h
      cases heq
      exact hsemantic hid
  obtain ⟨p, hp, hid⟩ := hmem
  have hsome : (r.get? id).isSome = true :=
    List.find?_isSome.2 ⟨p, hp, by simp [hid]⟩
  exact Option.isSome_iff_exists.1 hsome

end Analysis

end PageCompiler
