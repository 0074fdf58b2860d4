import PageCompiler.Proofs.Analysis
import PageCompiler.Proofs.Compile.Merge

/-!
# `PageCompiler.Proofs.Compile.Targets`: what the service is asked for

The service is asked for components by their names, and two sections may each have a component of
one name. So a component that the rules leave over (`leftOver`) can make the service take the place
of another one that a rule renders: what it gives for a name is put at the first component with that
name. The main statement says when a merge leaves every rendered component its own fragment: exactly
if the first component of each such name is itself left over.
-/

set_option autoImplicit false

namespace PageCompiler

namespace Compiler

variable {r : Registry} {a : Analysis} {d : Document}

/-- A component has a complex word. -/
def isComplex (c : Component) : Bool :=
  Analysis.complexityKeywords.any fun k => Keyword.occursIn k c.rawText

/-- The rules leave a component over: it takes no pattern, it has a complex word, or its rule could
not render it. -/
def leftOver (r : Registry) (a : Analysis) (c : Component) : Bool :=
  (Analysis.resolve r c).isNone || isComplex c || (RuleOutput.report? r a c).isSome

/-- The names for which the service is asked because of a component. A rule may report under another
name. -/
def asksFor (r : Registry) (a : Analysis) (c : Component) : List String :=
  (if (Analysis.resolve r c).isNone || isComplex c then [c.name] else []) ++
    (RuleOutput.report? r a c).toList.map MissingFields.component

/-- What a component asks for: its own name, or that in the report of its rule. -/
theorem mem_asksFor {c : Component} {name : String} :
    name ∈ asksFor r a c ↔
      (((Analysis.resolve r c).isNone = true ∨ isComplex c = true) ∧ c.name = name) ∨
        ∃ e, RuleOutput.report? r a c = some e ∧ e.component = name := by
  unfold asksFor
  rw [List.mem_append, List.mem_map]
  rw [← Bool.or_eq_true]
  refine or_congr ?_ (by simp)
  split
  · rename_i h
    rw [List.mem_singleton, eq_comm]
    exact (and_iff_right h).symm
  · rename_i h
    simp [h]

/-- The service is asked for what a component of the document asks for. -/
theorem mem_targets (hd : d.WellFormed) (ha : Analysis.classify r d = .ok a) {name : String} :
    name ∈ targets d.components a (RuleOutput.generate r a d) ↔
      name ∈ d.components.map Component.name ∧ ∃ c ∈ d.components, name ∈ asksFor r a c := by
  have hclasses : a.classifications = d.components.map (Analysis.classification r) := by
    rw [Analysis.classify_eq r hd] at ha
    cases ha
    rfl
  have hunresolved : name ∈ a.unresolvedComponents ↔
      ∃ c ∈ d.components, (Analysis.resolve r c).isNone = true ∧ c.name = name := by
    simp [Analysis.unresolvedComponents, hclasses, Analysis.classification, and_assoc]
  have hcomplex : name ∈ a.complexComponents ↔
      ∃ c ∈ d.components, isComplex c = true ∧ c.name = name := by
    simp [Analysis.complexComponents, hclasses, Analysis.classification, isComplex, and_assoc]
  have hfailed : name ∈ (RuleOutput.generate r a d).failed ↔
      ∃ c ∈ d.components, ∃ e, RuleOutput.report? r a c = some e ∧ e.component = name := by
    simp only [RuleOutput.failed, RuleOutput.errors_generate, List.mem_map, List.mem_filterMap]
    grind
  simp only [targets, List.mem_eraseDups, List.mem_filter, List.contains_iff_mem, List.mem_append,
    hunresolved, hcomplex, hfailed, mem_asksFor]
  -- The three lists are read one after the other, and the reasons of a component together.
  grind

/-- A component that the rules do not leave over is rendered. -/
theorem attempt?_of_leftOver (hd : d.WellFormed) (ha : Analysis.classify r d = .ok a)
    {c : Component} (hc : c ∈ d.components) (h : leftOver r a c = false) :
    ∃ f, RuleOutput.attempt? r a c = some (.ok f) := by
  rw [Analysis.classify_eq r hd] at ha
  cases ha
  simp only [leftOver, Bool.or_eq_false_iff, Option.isNone_eq_false_iff,
    Option.isSome_eq_false_iff] at h
  obtain ⟨⟨hresolve, -⟩, hreport⟩ := h
  obtain ⟨⟨id, kind⟩, hresolve⟩ := Option.isSome_iff_exists.1 hresolve
  obtain ⟨p, hp⟩ := Analysis.get?_of_resolve hresolve
  refine RuleOutput.attempt?_of_report? ?_ hp (Option.isNone_iff_eq_none.1 hreport)
  rw [Analysis.knownPatternFor_eq_patternFor, Analysis.patternFor_eq r hd hc, hresolve]
  rfl

/-- A fragment respects the rules at a component: where they leave nothing over it is the fragment
of the component's own rule, and from the service it comes only where they leave something over. -/
def Respects (r : Registry) (a : Analysis) (c : Component) (f : Fragment) : Prop :=
  (leftOver r a c = false → RuleOutput.attempt? r a c = some (.ok f)) ∧
    (f.source = .fallback → leftOver r a c = true)

/-- What is put at a component respects the rules unless it comes from the service and the component
is not left over. -/
theorem respects_slot_iff (hd : d.WellFormed) (ha : Analysis.classify r d = .ok a) {b : Bundle}
    (hb : b.WellFormed) {c : Component} (hc : c ∈ d.components) (wanted seen : List String) :
    Respects r a c (slot (RuleOutput.generate r a d) (some b) wanted seen c) ↔
      (c.name ∈ wanted → c.name ∉ seen → (b.get? c.name).isSome = true →
        leftOver r a c = true) := by
  have hlabel : Labelled (RuleOutput.generate r a d) (some b) c :=
    labelled_generate hd (by rintro b' hb'; cases hb'; exact hb) r a c hc
  constructor
  · rintro ⟨-, hsource⟩ hwanted hseen hget
    obtain ⟨f, hf⟩ := Option.isSome_iff_exists.1 hget
    rw [slot_of_service (serviceFragment?_of_get? hf hwanted hseen)] at hsource
    exact hsource (hlabel.service rfl hf).2
  · intro hfirst
    obtain ⟨b', hb', hf, hwanted, hseen⟩ | ⟨-, hf⟩ | ⟨-, hnone, hf⟩ :=
      slot_cases (RuleOutput.generate r a d) (some b) wanted seen c
    · -- From the service: the component is the first with its name.
      cases hb'
      have hleft := hfirst hwanted hseen (by rw [hf]; rfl)
      exact ⟨fun h => absurd (hleft.symm.trans h) (by decide), fun _ => hleft⟩
    · refine ⟨fun _ => ?_, fun hsource => ?_⟩
      · rw [RuleOutput.fragment?_generate hd hc] at hf
        exact RuleOutput.rendered?_eq_some_iff.1 hf
      · rw [(hlabel.rule hf).2] at hsource
        cases hsource
    · refine ⟨fun hleft => ?_, fun hsource => ?_⟩
      · -- A component that is not left over has a fragment, so no placeholder stands there.
        obtain ⟨f, hattempt⟩ := attempt?_of_leftOver hd ha hc hleft
        rw [RuleOutput.fragment?_generate hd hc,
          RuleOutput.rendered?_eq_some_iff.2 hattempt] at hnone
        cases hnone
      · rw [hf] at hsource
        cases hsource

end Compiler

open Compiler

/-- Where the rules and the service share the work, a merge has one fragment for each component and
then those of the service that name no component. All of them respect the rules exactly if, for
every name that the service was asked for and gave, the first component with that name is left
over. -/
theorem hybrid_merge_respects_iff {text reply : String} {r : Registry} {d : Document}
    {a : Analysis} {b : Bundle} (hread : Document.read text = .ok d)
    (hclassify : Analysis.classify r d = .ok a) (hstrategy : a.strategy = .hybrid)
    (hreply : Bundle.read reply = .ok b) :
    let o := RuleOutput.generate r a d
    ∃ placed : List (Component × Fragment), placed.map Prod.fst = d.components ∧
      (mergeFragments d.components a.strategy o (some b) (targets d.components a o)).1 =
        placed.map Prod.snd ++
          b.fragments.filter (fun f => !(d.components.map Component.name).contains f.component) ∧
      ((∀ p ∈ placed, Respects r a p.1 p.2) ↔
        ∀ before c after, d.components = before ++ c :: after →
          c.name ∉ before.map Component.name → (∃ f ∈ b.fragments, f.component = c.name) →
          (∃ c' ∈ d.components, c.name ∈ asksFor r a c') → leftOver r a c = true) := by
  intro o
  have hd := Document.wellFormed_of_read hread
  have hb := Bundle.wellFormed_of_read hreply
  have hlabel : ∀ c ∈ d.components, Labelled o (some b) c :=
    labelled_generate hd (by rintro b' hb'; cases hb'; exact hb) r a
  refine ⟨slots o (some b) (targets d.components a o) [] d.components, map_fst_slots _ _, ?_, ?_⟩
  · rw [mergeFragments_eq hlabel (by rw [hstrategy]; simp)]
    rfl
  constructor
  · intro hall before c after hcs hfirst hgiven hasked
    have hc : c ∈ d.components := by
      rw [hcs]
      exact List.mem_append_right _ List.mem_cons_self
    have hplaced := hall (c, slot o (some b) (targets d.components a o)
      ([] ++ before.map Component.name) c) (mem_slots.2 ⟨before, after, hcs, rfl⟩)
    exact (respects_slot_iff hd hclassify hb hc _ _).1 hplaced
      ((mem_targets hd hclassify).2 ⟨List.mem_map_of_mem hc, hasked⟩) (by simpa using hfirst)
      (Bundle.get?_isSome_iff.2 hgiven)
  · intro hall p hp
    obtain ⟨before, after, hcs, hslot⟩ := mem_slots.1 hp
    have hc : p.1 ∈ d.components := by
      rw [hcs]
      exact List.mem_append_right _ List.mem_cons_self
    rw [hslot, respects_slot_iff hd hclassify hb hc]
    intro hwanted hseen hget
    exact hall before p.1 after hcs (by simpa using hseen) (Bundle.get?_isSome_iff.1 hget)
      ((mem_targets hd hclassify).1 hwanted).2

/-- Two sections with a card each, of which the rules render only the first. -/
def twoCards : String :=
  "## UI Components\n" ++
    "card: \x7b\n  type: progress_bar\n  current_step: 1\n  total_steps: 4\n\x7d\n" ++
    "## Other Parts\ncard: \x7b\n  type: mystery\n  note: \"custom\"\n\x7d\n"

/-- An answer with a card. -/
def oneCard : String :=
  "<apml-artifact>\n<fragment component=\"card\">\n<p>from the service</p>\n</fragment>\n" ++
    "</apml-artifact>"

/-- The first card is not left over, and the service's card is put there. -/
theorem hybrid_merge_respects_iff_two_cards :
    ∃ d a b, Document.read twoCards = .ok d ∧ Analysis.classify .standard d = .ok a ∧
      a.strategy = .hybrid ∧ Bundle.read oneCard = .ok b ∧
      ∃ placed : List (Component × Fragment), placed.map Prod.fst = d.components ∧
        (mergeFragments d.components a.strategy (RuleOutput.generate .standard a d) (some b)
          (targets d.components a (RuleOutput.generate .standard a d))).1 =
          placed.map Prod.snd ++
            b.fragments.filter (fun f => !(d.components.map Component.name).contains f.component) ∧
        ¬∀ p ∈ placed, Respects .standard a p.1 p.2 := by
  obtain ⟨d, hread, hd⟩ := @Failure.exists_ok _ _ (Document.read twoCards) (fun d =>
    (Analysis.classify .standard d).toOption.any fun a =>
      a.strategy == .hybrid && match d.components with
      | c :: _ => c.name == "card" && !leftOver .standard a c &&
        d.components.any fun c' => (asksFor .standard a c').contains "card"
      | [] => false) (by decide +kernel)
  obtain ⟨a, hclassify, ha⟩ := Failure.exists_ok _ hd
  obtain ⟨b, hreply, hb⟩ := @Failure.exists_ok _ _ (Bundle.read oneCard)
    (fun b => b.fragments.any fun f => f.component == "card") (by decide +kernel)
  obtain ⟨hstrategy, hcards⟩ := Bool.and_eq_true_iff.1 ha
  have hstrategy := beq_iff_eq.1 hstrategy
  obtain ⟨placed, hfst, hmerged, hiff⟩ :=
    hybrid_merge_respects_iff hread hclassify hstrategy hreply
  refine ⟨d, a, b, hread, hclassify, hstrategy, hreply, placed, hfst, hmerged, ?_⟩
  rw [hiff]
  intro hall
  split at hcards
  · rename_i c cs hcs
    simp only [Bool.and_eq_true, Bool.not_eq_true', beq_iff_eq, List.any_eq_true,
      List.contains_iff_mem] at hcards hb
    obtain ⟨⟨hname, hleft⟩, hasked⟩ := hcards
    rw [← hname] at hb hasked
    rw [hall [] c cs hcs (by simp) hb hasked] at hleft
    cases hleft
  · cases hcards

end PageCompiler
