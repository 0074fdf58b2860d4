import Mathlib.Data.List.Forall2
import PageCompiler.Proofs.Analysis

/-!
# `PageCompiler.Proofs.Analysis.Extension`: more patterns behind those of a registry

Patterns that are added to a registry stand behind those it had (`addAll_of_fresh`). A component
finds the type it declares wherever it stands, and by its words it finds the first pattern. So what
a component took before it keeps, with one exception: a component that was found by its words and
declares the id of an added pattern takes that one. `Conserves` lists the cases, and
`classify_extended_conserves` gives them for all components of a document, with what follows for the
strategy.
-/

set_option autoImplicit false

namespace PageCompiler

/-! ### Adding patterns -/

namespace Registry

/-- Patterns with new and different ids can be added, and stand behind the others. -/
theorem addAll_of_fresh {extra : List Pattern} (r : Registry) (hne : ∀ p ∈ extra, p.id ≠ "")
    (hdistinct : (extra.map Pattern.id).Nodup) (hfresh : ∀ p ∈ extra, p.id ∉ r.ids) :
    ∃ r', r.addAll extra = .ok r' ∧ r'.patterns = r.patterns ++ extra := by
  induction extra generalizing r with
  | nil => exact ⟨r, rfl, (List.append_nil _).symm⟩
  | cons p extra ih =>
    obtain ⟨hp, hne⟩ := List.forall_mem_cons.1 hne
    obtain ⟨hnew, hfresh⟩ := List.forall_mem_cons.1 hfresh
    rw [List.map_cons, List.nodup_cons] at hdistinct
    obtain ⟨r₁, hadd, hpatterns⟩ : ∃ r₁, r.add p = .ok r₁ ∧ r₁.patterns = r.patterns ++ [p] := by
      rw [add, dif_neg hp, dif_neg (show p.id ∉ r.patterns.map Pattern.id from hnew)]
      exact ⟨_, rfl, rfl⟩
    obtain ⟨r', hall, hpatterns'⟩ := ih r₁ hne hdistinct.2 fun q hq hmem => by
      -- An id behind is neither one of those before nor that of the pattern just added.
      rw [ids, hpatterns, List.map_append, List.mem_append] at hmem
      rcases hmem with hmem | hmem
      · exact hfresh q hq hmem
      · refine hdistinct.1 ?_
        rw [← List.mem_singleton.1 hmem]
        exact List.mem_map_of_mem hq
    refine ⟨r', ?_, by rw [hpatterns', hpatterns, List.append_assoc, List.singleton_append]⟩
    rw [addAll, List.foldlM_cons, hadd]
    exact hall

variable {r r' : Registry} {extra : List Pattern}

theorem has_extended (h : r'.patterns = r.patterns ++ extra) (id : String) :
    r'.has id = (r.has id || extra.any fun p => p.id == id) := by
  rw [has, h, List.any_append, has]

end Registry

/-! ### What a component takes -/

namespace Analysis

section Resolve

variable {r r' : Registry} {extra : List Pattern} {c : Component}

/-- No type that a component declares is registered. -/
def Undeclared (r : Registry) (c : Component) : Prop :=
  ∀ name, c.patternName = some name → r.has name = false

/-- A component whose type is registered takes it. -/
theorem resolve_of_has {name : String} (hname : c.patternName = some name)
    (hhas : r.has name = true) : resolve r c = some (name, .exact) := by
  simp only [resolve, hname, hhas, if_true]

/-- A component whose type is not registered is found by its words. -/
theorem resolve_of_undeclared (h : Undeclared r c) :
    resolve r c = (semanticMatch? r c.rawText).map fun id => (id, .semantic) := by
  rw [resolve]
  split
  next name hname => rw [h name hname, if_neg (by decide)]
  next => rfl

theorem not_undeclared {name : String} (hname : c.patternName = some name)
    (hhas : r.has name = true) : ¬Undeclared r c := by
  intro h
  rw [h name hname] at hhas
  cases hhas

theorem has_or_undeclared (r : Registry) (c : Component) :
    (∃ name, c.patternName = some name ∧ r.has name = true) ∨ Undeclared r c := by
  by_cases h : ∃ name, c.patternName = some name ∧ r.has name = true
  · exact .inl h
  · exact .inr fun name hname => Bool.eq_false_iff.2 fun hhas => h ⟨name, hname, hhas⟩

/-- A declared type that is registered is taken as it is. -/
theorem resolve_eq_exact_iff {id : String} :
    resolve r c = some (id, .exact) ↔ c.patternName = some id ∧ r.has id = true := by
  refine ⟨fun h => ?_, fun h => resolve_of_has h.1 h.2⟩
  rcases has_or_undeclared r c with ⟨name, hname, hhas⟩ | hnone
  · rw [resolve_of_has hname hhas] at h
    cases h
    exact ⟨hname, hhas⟩
  · rw [resolve_of_undeclared hnone] at h
    obtain ⟨_, -, heq⟩ := Option.map_eq_some_iff.1 h
    cases heq

/-- Only a component without a registered type takes a pattern by its words. -/
theorem resolve_eq_semantic_iff {id : String} :
    resolve r c = some (id, .semantic) ↔
      Undeclared r c ∧ semanticMatch? r c.rawText = some id := by
  rcases has_or_undeclared r c with ⟨name, hname, hhas⟩ | hnone
  · rw [resolve_of_has hname hhas]
    exact iff_of_false nofun fun h => not_undeclared hname hhas h.1
  · rw [resolve_of_undeclared hnone]
    simp [hnone]

/-- Without a registered type and without a word of a pattern, none is taken. -/
theorem resolve_eq_none_iff :
    resolve r c = none ↔ Undeclared r c ∧ semanticMatch? r c.rawText = none := by
  rcases has_or_undeclared r c with ⟨name, hname, hhas⟩ | hnone
  · rw [resolve_of_has hname hhas]
    exact iff_of_false nofun fun h => not_undeclared hname hhas h.1
  · rw [resolve_of_undeclared hnone]
    simp [hnone]

end Resolve

/-! ### What becomes of it -/

/-- What may become of a classification when patterns are added. An exact match stays. A match by
words stays too, unless the declared type is the id of an added pattern, which then is an exact
match. A component without a pattern stays without or takes one of the added. -/
structure Conserves (extra : List Pattern) (k k' : Classification) : Prop where
  component : k'.component = k.component
  inSection : k'.inSection = k.inSection
  declaredType : k'.declaredType = k.declaredType
  complexityHits : k'.complexityHits = k.complexityHits
  exact : ∀ id, k.resolved = some (id, .exact) → k'.resolved = some (id, .exact)
  semantic : ∀ id, k.resolved = some (id, .semantic) →
    (∀ p ∈ extra, k.declaredType ≠ some p.id) → k'.resolved = some (id, .semantic)
  declared : ∀ id, k.resolved = some (id, .semantic) →
    ∀ p ∈ extra, k.declaredType = some p.id → k'.resolved = some (p.id, .exact)
  unresolved : k.resolved = none →
    k'.resolved = none ∨ ∃ p ∈ extra, ∃ kind, k'.resolved = some (p.id, kind)

section Extended

variable {r r' : Registry} {extra : List Pattern} (h : r'.patterns = r.patterns ++ extra)

include h

/-- By its words a text finds an added pattern only if it finds none of those before. -/
theorem semanticMatch?_extended (text : String) :
    semanticMatch? r' text = (semanticMatch? r text).or
      ((extra.find? fun p => p.keywords.any fun k => Keyword.occursIn k text).map Pattern.id) := by
  rw [semanticMatch?, h, List.find?_append, Option.map_or]
  rfl

theorem undeclared_extended {c : Component} (hnone : Undeclared r c)
    (hextra : ∀ p ∈ extra, c.patternName ≠ some p.id) : Undeclared r' c := by
  intro name hname
  rw [Registry.has_extended h, hnone name hname, Bool.false_or, List.any_eq_false]
  rintro p hp hid
  exact hextra p hp (by rw [hname, beq_iff_eq.1 hid])

/-- More patterns take nothing back from the classification of a component. -/
theorem conserves_classification (c : Component) :
    Conserves extra (classification r c) (classification r' c) := by
  have hadded : ∀ p ∈ extra, r'.has p.id = true := by
    intro p hp
    rw [Registry.has_extended h, Bool.or_eq_true]
    exact .inr (List.any_eq_true.2 ⟨p, hp, beq_self_eq_true p.id⟩)
  refine ⟨rfl, rfl, rfl, rfl, fun id hid => ?_, fun id hid hextra => ?_,
    fun id hid p hp hdeclared => ?_, fun hid => ?_⟩
  · obtain ⟨hname, hhas⟩ := resolve_eq_exact_iff.1 hid
    exact resolve_of_has hname (by rw [Registry.has_extended h, hhas, Bool.true_or])
  · obtain ⟨hnone, hmatch⟩ := resolve_eq_semantic_iff.1 hid
    refine resolve_eq_semantic_iff.2 ⟨undeclared_extended h hnone hextra, ?_⟩
    rw [semanticMatch?_extended h, hmatch, Option.some_or]
  · exact resolve_of_has hdeclared (hadded p hp)
  · obtain ⟨hnone, hmatch⟩ := resolve_eq_none_iff.1 hid
    by_cases hextra : ∃ p ∈ extra, c.patternName = some p.id
    · obtain ⟨p, hp, hdeclared⟩ := hextra
      exact .inr ⟨p, hp, .exact, resolve_of_has hdeclared (hadded p hp)⟩
    · have hnone' : Undeclared r' c :=
        undeclared_extended h hnone fun p hp hdeclared => hextra ⟨p, hp, hdeclared⟩
      have hresolve : (classification r' c).resolved = _ := resolve_of_undeclared hnone'
      rw [hresolve, semanticMatch?_extended h, hmatch, Option.none_or]
      cases hfind : extra.find? fun p => p.keywords.any fun k => Keyword.occursIn k c.rawText with
      | none => exact .inl rfl
      | some p => exact .inr ⟨p, List.mem_of_find?_eq_some hfind, .semantic, rfl⟩

end Extended

/-- A component that took a pattern still takes one. -/
theorem Conserves.isSome {extra : List Pattern} {k k' : Classification}
    (h : Conserves extra k k') (hk : k.resolved ≠ none) : k'.resolved ≠ none := by
  obtain ⟨⟨id, kind⟩, hid⟩ := Option.ne_none_iff_exists'.1 hk
  cases kind with
  | exact => rw [h.exact id hid]; nofun
  | semantic =>
    by_cases hextra : ∃ p ∈ extra, k.declaredType = some p.id
    · obtain ⟨p, hp, hdeclared⟩ := hextra
      rw [h.declared id hid p hp hdeclared]
      nofun
    · rw [h.semantic id hid fun p hp hdeclared => hextra ⟨p, hp, hdeclared⟩]
      nofun

/-! ### The strategy -/

/-- Everything is left to the service exactly if no pattern is known. -/
theorem strategyFor_eq_manualOnly_iff {known hits : List String} :
    strategyFor known hits = .manualOnly ↔ known = [] := by
  cases known with
  | nil => simp [strategyFor]
  | cons id known =>
    cases hits with
    | nil => simp [strategyFor]
    | cons hit hits => simp [strategyFor]

/-- As long as there are patterns, it does not matter for the strategy which they are. -/
theorem strategyFor_congr {known known' hits : List String} (h : known ≠ []) (h' : known' ≠ []) :
    strategyFor known hits = strategyFor known' hits := by
  simp [strategyFor, h, h']

/-- No pattern is known exactly if no component took one. -/
theorem knownPatterns_eq_nil_iff {ks : List Classification} :
    (ofClassifications ks).knownPatterns = [] ↔ ∀ k ∈ ks, k.resolved = none := by
  show (ks.filterMap Classification.patternId).eraseDups = [] ↔ _
  simp only [List.eq_nil_iff_forall_not_mem, List.mem_eraseDups, List.mem_filterMap, not_exists,
    not_and]
  constructor
  · intro h k hk
    cases hresolved : k.resolved with
    | none => rfl
    | some m => exact absurd (by rw [Classification.patternId, hresolved]; rfl) (h m.1 k hk)
  · intro h id k hk hid
    rw [Classification.patternId, h k hk] at hid
    cases hid

/-- If the words are the same and no pattern is lost altogether, the strategy changes exactly where
there was no pattern and now is one. -/
theorem strategy_ne_iff {ks ks' : List Classification}
    (hhits : (ofClassifications ks').complexityHits = (ofClassifications ks).complexityHits)
    (hkept : (∃ k ∈ ks, k.resolved ≠ none) → ∃ k' ∈ ks', k'.resolved ≠ none) :
    (ofClassifications ks').strategy ≠ (ofClassifications ks).strategy ↔
      (ofClassifications ks).strategy = .manualOnly ∧ ∃ k' ∈ ks', k'.resolved ≠ none := by
  have hstrategy : ∀ ks, (ofClassifications ks).strategy =
      strategyFor (ofClassifications ks).knownPatterns (ofClassifications ks).complexityHits :=
    fun _ => rfl
  have htaken : ∀ {ks : List Classification}, (∃ k ∈ ks, k.resolved ≠ none) ↔
      (ofClassifications ks).knownPatterns ≠ [] := by
    intro ks
    simp only [ne_eq, knownPatterns_eq_nil_iff, not_forall, exists_prop]
  rw [hstrategy ks, hstrategy ks', strategyFor_eq_manualOnly_iff, hhits, htaken]
  rw [htaken, htaken] at hkept
  by_cases h : (ofClassifications ks).knownPatterns = []
  · -- Nothing was taken: the strategy stays exactly if still nothing is taken.
    rw [strategyFor_eq_manualOnly_iff.2 h, ne_eq, strategyFor_eq_manualOnly_iff]
    exact (and_iff_right h).symm
  · exact iff_of_false (fun hne => hne (strategyFor_congr (hkept h) h)) fun hnil => h hnil.1

/-! ### The analysis of a document -/

/-- Patterns with ids that are new, different and not empty can be added to every registry. The
analysis of a document then stops where it stopped before, or every component keeps what `Conserves`
says. The words that announce something complex stay the same, and the strategy changes exactly if
no component took a pattern before and one does now. -/
theorem classify_extended_conserves (r : Registry) (extra : List Pattern) (d : Document)
    (hne : ∀ p ∈ extra, p.id ≠ "") (hdistinct : (extra.map Pattern.id).Nodup)
    (hfresh : ∀ p ∈ extra, p.id ∉ r.ids) :
    ∃ r', r.addAll extra = .ok r' ∧ r'.patterns = r.patterns ++ extra ∧
      ((∃ e, classify r d = .error e ∧ classify r' d = .error e) ∨
        ∃ a a', classify r d = .ok a ∧ classify r' d = .ok a' ∧
          List.Forall₂ (Conserves extra) a.classifications a'.classifications ∧
          a'.complexityHits = a.complexityHits ∧
          (a'.strategy ≠ a.strategy ↔
            a.strategy = .manualOnly ∧ ∃ k' ∈ a'.classifications, k'.resolved ≠ none)) := by
  obtain ⟨r', hr', hpatterns⟩ := r.addAll_of_fresh hne hdistinct hfresh
  refine ⟨r', hr', hpatterns, ?_⟩
  rcases classify_cases d with ⟨e, herror⟩ | hclassify
  · exact .inl ⟨e, herror r, herror r'⟩
  have hconserves := conserves_classification hpatterns
  have hhits : (ofClassifications (d.components.map (classification r'))).complexityHits =
      (ofClassifications (d.components.map (classification r))).complexityHits := by
    show (List.flatMap _ _).eraseDups = (List.flatMap _ _).eraseDups
    rw [List.flatMap_map, List.flatMap_map]
    rfl
  refine .inr ⟨_, _, hclassify r, hclassify r', ?_, hhits, strategy_ne_iff hhits ?_⟩
  · show List.Forall₂ _ (d.components.map _) (d.components.map _)
    rw [List.forall₂_map_left_iff, List.forall₂_map_right_iff, List.forall₂_same]
    exact fun c _ => hconserves c
  · rintro ⟨k, hk, htaken⟩
    obtain ⟨c, hc, rfl⟩ := List.mem_map.1 hk
    exact ⟨_, List.mem_map_of_mem hc, (hconserves c).isSome htaken⟩

/-- A pattern for gauges. -/
def gauge : Pattern :=
  { id := "gauge", required := [], keywords := ["dial"], render := fun _ => "<hr>", style := "",
    state := fun _ => [] }

/-- A component that is found by its words and declares a gauge, and one that is not found. -/
def twoGauges : Document :=
  { metadata := []
    sections :=
      [{ name := componentSection
         components :=
          [{ name := "a", patternName := some "gauge", properties := [], rawText := "overlay",
             inSection := componentSection, line := 1 },
           { name := "b", patternName := none, properties := [], rawText := "a dial",
             inSection := componentSection, line := 2 }]
         properties := [] }] }

/-- A pattern for gauges behind the standard ones, with a component that is found by its words and
one that is not found. -/
theorem classify_extended_conserves_gauge :
    (∀ p ∈ [gauge], p.id ≠ "") ∧ ([gauge].map Pattern.id).Nodup ∧
    (∀ p ∈ [gauge], p.id ∉ Registry.standard.ids) ∧
    ∃ r' a a', Registry.standard.addAll [gauge] = .ok r' ∧
      classify .standard twoGauges = .ok a ∧ classify r' twoGauges = .ok a' ∧
      a.classifications.map Classification.resolved = [some ("modal_dialog", .semantic), none] ∧
      List.Forall₂ (Conserves [gauge]) a.classifications a'.classifications ∧
      (a'.strategy ≠ a.strategy ↔
        a.strategy = .manualOnly ∧ ∃ k' ∈ a'.classifications, k'.resolved ≠ none) := by
  have hne : ∀ p ∈ [gauge], p.id ≠ "" := by decide
  have hdistinct : ([gauge].map Pattern.id).Nodup := by decide
  have hfresh : ∀ p ∈ [gauge], p.id ∉ Registry.standard.ids := by
    rw [Registry.ids, Registry.standard, Registry.standardPatterns_ids]
    decide
  obtain ⟨r', hr', -, hcases⟩ :=
    classify_extended_conserves .standard [gauge] twoGauges hne hdistinct hfresh
  obtain ⟨a₀, ha₀, hresolved⟩ := Failure.exists_ok (x := classify .standard twoGauges)
    (fun a => decide (a.classifications.map Classification.resolved =
      [some ("modal_dialog", .semantic), none])) (by decide +kernel)
  rcases hcases with ⟨e, he, -⟩ | ⟨a, a', ha, ha', hforall, -, hstrategy⟩
  · rw [ha₀] at he
    cases he
  · rw [ha₀] at ha
    cases ha
    exact ⟨hne, hdistinct, hfresh, r', a₀, a', hr', ha₀, ha', of_decide_eq_true hresolved, hforall,
      hstrategy⟩

end Analysis

end PageCompiler
