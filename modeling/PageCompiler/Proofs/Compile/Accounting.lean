import PageCompiler.Proofs.Artifact.Wrappers
import PageCompiler.Proofs.Compile.Merge

/-!
# `PageCompiler.Proofs.Compile.Accounting`: no fragment is lost, and none comes twice

A merge has one fragment for each component and then what the service has besides (`Accounted`).
What comes from the service comes once: its fragments have different names, and at most one
component of a name takes its fragment from there. So the fragments that a compilation counts are
the places for components in its page.
-/

set_option autoImplicit false

namespace PageCompiler

namespace Compiler

/-- The names of the fragments that come from the service. -/
def fromService (fragments : List Fragment) : List String :=
  (fragments.filter fun f => f.source == .fallback).map Fragment.component

/-- Fragments from the service are counted list by list. -/
theorem fromService_append (fs gs : List Fragment) :
    fromService (fs ++ gs) = fromService fs ++ fromService gs := by
  simp [fromService]

theorem fromService_cons (f : Fragment) (fs : List Fragment) :
    fromService (f :: fs) =
      (if f.source = .fallback then [f.component] else []) ++ fromService fs := by
  unfold fromService
  by_cases h : f.source = .fallback
  · simp [h]
  · simp [h]

/-- A merge accounts for the components of a document and the fragments of the service. -/
structure Accounted (cs : List Component) (given : List Fragment)
    (merged : List Fragment × List String) (placed : List Fragment) : Prop where
  /-- Behind the fragments of the components stand those that name no component, in order. -/
  fragments : merged.1 = placed ++
    given.filter fun f => !(cs.map Component.name).contains f.component
  /-- Each component has its fragment, in order. -/
  names : placed.map Fragment.component = cs.map Component.name
  /-- What comes from the service was given by it. -/
  source : ∀ f ∈ merged.1, f.source = .fallback → f ∈ given
  /-- No fragment of the service comes twice. -/
  once : (fromService merged.1).Nodup
  /-- The names of the placeholders, each once. -/
  unresolved : merged.2 = (pending placed).eraseDups

variable {o : RuleOutput} {bundle : Option Bundle} {wanted : List String}

/-- What comes from the service at a component was given for its name, which no component in front
has. -/
theorem Labelled.get?_of_source {c : Component} (h : Labelled o bundle c) {seen : List String}
    (hsource : (slot o bundle wanted seen c).source = .fallback) :
    c.name ∉ seen ∧ ∃ b, bundle = some b ∧ b.get? c.name = some (slot o bundle wanted seen c) := by
  obtain ⟨b, hb, hf, -, hseen⟩ | ⟨-, hf⟩ | ⟨-, -, hf⟩ := slot_cases o bundle wanted seen c
  · exact ⟨hseen, b, hb, hf⟩
  · rw [(h.rule hf).2] at hsource
    cases hsource
  · rw [hf] at hsource
    cases hsource

/-- Each name that was asked for is filled by the service at most once. -/
theorem fromService_slots {cs : List Component} (hlabel : ∀ c ∈ cs, Labelled o bundle c)
    (wanted seen : List String) :
    (fromService ((slots o bundle wanted seen cs).map Prod.snd)).Nodup ∧
      ∀ name ∈ fromService ((slots o bundle wanted seen cs).map Prod.snd),
        name ∉ seen ∧ name ∈ cs.map Component.name := by
  induction cs generalizing seen with
  | nil => simp [slots, fromService]
  | cons c cs ih =>
    obtain ⟨hc, hcs⟩ := List.forall_mem_cons.1 hlabel
    -- The name of the first component counts as seen for the rest, which cannot have it again.
    obtain ⟨hnodup, hnames⟩ := ih hcs (seen ++ [c.name])
    have hrest : ∀ name ∈ fromService ((slots o bundle wanted (seen ++ [c.name]) cs).map Prod.snd),
        name ∉ seen ∧ name ≠ c.name ∧ name ∈ cs.map Component.name := by
      intro name hname
      simpa [and_assoc] using hnames name hname
    rw [slots, List.map_cons, fromService_cons]
    by_cases hsource : (slot o bundle wanted seen c).source = .fallback
    · rw [if_pos hsource, hc.slot_component, List.singleton_append, List.nodup_cons]
      refine ⟨⟨fun hmem => (hrest _ hmem).2.1 rfl, hnodup⟩, ?_⟩
      intro name hname
      rcases List.mem_cons.1 hname with rfl | hname
      · exact ⟨(hc.get?_of_source hsource).1, List.mem_cons_self⟩
      · exact ⟨(hrest name hname).1, List.mem_cons_of_mem _ (hrest name hname).2.2⟩
    · rw [if_neg hsource, List.nil_append]
      refine ⟨hnodup, ?_⟩
      intro name hname
      exact ⟨(hrest name hname).1, List.mem_cons_of_mem _ (hrest name hname).2.2⟩

/-- Each component has one place, in order. -/
theorem map_component_slots {cs : List Component} (hlabel : ∀ c ∈ cs, Labelled o bundle c)
    (seen : List String) :
    ((slots o bundle wanted seen cs).map Prod.snd).map Fragment.component =
      cs.map Component.name := by
  induction cs generalizing seen with
  | nil => rfl
  | cons c cs ih =>
    obtain ⟨hc, hcs⟩ := List.forall_mem_cons.1 hlabel
    rw [slots, List.map_cons, List.map_cons, ih hcs, hc.slot_component, List.map_cons]

/-- The fragments that a bundle has besides come once, and no component has their name. -/
theorem fromService_extras (hbundle : ∀ b, bundle = some b → b.WellFormed) (cs : List Component) :
    (fromService (extras bundle cs)).Nodup ∧
      ∀ name ∈ fromService (extras bundle cs), name ∉ cs.map Component.name := by
  have hnodup : ((extras bundle cs).map Fragment.component).Nodup := by
    cases bundle with
    | none => exact List.nodup_nil
    | some b => exact (hbundle b rfl).names_nodup.sublist (List.filter_sublist.map _)
  refine ⟨hnodup.sublist (List.filter_sublist.map _), ?_⟩
  intro name hname
  obtain ⟨f, hf, rfl⟩ := List.mem_map.1 hname
  have hf := List.mem_filter.1 (List.mem_filter.1 hf).1
  simpa using hf.2

/-- Unless the service does it all, a merge accounts for everything. -/
theorem accounted_mergeFragments {cs : List Component} (hlabel : ∀ c ∈ cs, Labelled o bundle c)
    (hbundle : ∀ b, bundle = some b → b.WellFormed) {strategy : Strategy}
    (hstrategy : ¬(strategy = .manualOnly ∧ bundle.isSome = true)) (wanted : List String) :
    Accounted cs ((bundle.map Bundle.fragments).getD [])
      (mergeFragments cs strategy o bundle wanted)
      ((slots o bundle wanted [] cs).map Prod.snd) := by
  rw [mergeFragments_eq hlabel hstrategy]
  refine ⟨rfl, map_component_slots hlabel [], ?_, ?_, rfl⟩
  · intro f hf hsource
    rcases List.mem_append.1 hf with hf | hf
    · obtain ⟨⟨c, f⟩, hp, rfl⟩ := List.mem_map.1 hf
      obtain ⟨before, after, hcs, hslot⟩ := mem_slots.1 hp
      have hc : Labelled o bundle c := hlabel c (by rw [hcs]; simp)
      simp only at hslot hsource
      rw [hslot] at hsource
      obtain ⟨-, b, rfl, hget⟩ := hc.get?_of_source hsource
      rw [← hslot] at hget
      exact (Bundle.get?_eq_some hget).1
    · exact (List.mem_filter.1 hf).1
  · -- What stands at components has their names, and what stands behind them has none of these.
    obtain ⟨hplaced, hdeclared⟩ := fromService_slots hlabel wanted []
    obtain ⟨hextras, hundeclared⟩ := fromService_extras hbundle cs
    rw [fromService_append, List.nodup_append]
    refine ⟨hplaced, hextras, ?_⟩
    rintro name hname _ hextra rfl
    exact hundeclared name hextra (hdeclared name hname).2

/-- Where the service does it all, a merge is what it gives. -/
theorem mergeFragments_manualOnly (cs : List Component) (o : RuleOutput) (b : Bundle)
    (wanted : List String) :
    mergeFragments cs .manualOnly o (some b) wanted =
      (b.fragments, ((cs.map Component.name).filter fun name =>
        !(b.fragments.map Fragment.component).contains name).eraseDups) := by
  have hcovered : ∀ name, (b.get? name).isNone =
      !(b.fragments.map Fragment.component).contains name := by
    intro name
    rw [← Option.not_isSome, Bool.not_inj_iff, Bool.eq_iff_iff, Bundle.get?_isSome_iff,
      List.contains_iff_mem, List.mem_map]
  simp only [mergeFragments, hcovered]

/-- The names of the fragments of a merge are legal. -/
theorem isName_of_mem_mergeFragments {d : Document} (hd : d.WellFormed)
    (hbundle : ∀ b, bundle = some b → b.WellFormed) (r : Registry) (a : Analysis)
    (strategy : Strategy) (wanted : List String) :
    ∀ f ∈ (mergeFragments d.components strategy (RuleOutput.generate r a d) bundle wanted).1,
      Bundle.isName f.component.toList = true := by
  intro f hf
  have hgiven : f ∈ (bundle.map Bundle.fragments).getD [] →
      Bundle.isName f.component.toList = true := by
    intro hf
    cases bundle with
    | none => cases hf
    | some b => exact (hbundle b rfl).isName f hf
  by_cases hstrategy : strategy = .manualOnly ∧ bundle.isSome = true
  · obtain ⟨rfl, hsome⟩ := hstrategy
    obtain ⟨b, rfl⟩ := Option.isSome_iff_exists.1 hsome
    rw [mergeFragments_manualOnly] at hf
    exact hgiven hf
  · have haccounted := accounted_mergeFragments (labelled_generate hd hbundle r a) hbundle hstrategy
      wanted
    rw [haccounted.fragments] at hf
    rcases List.mem_append.1 hf with hf | hf
    · have hname := List.mem_map_of_mem (f := Fragment.component) hf
      rw [haccounted.names] at hname
      obtain ⟨c, hc, hname⟩ := List.mem_map.1 hname
      rw [← hname]
      exact (hd.component hc).1
    · exact hgiven (List.mem_filter.1 hf).1

/-! ### A whole compilation -/

/-- Every fragment is counted under one source. -/
theorem countFrom_sum (fragments : List Fragment) :
    countFrom .rule fragments + countFrom .fallback fragments + countFrom .placeholder fragments =
      fragments.length := by
  unfold countFrom
  induction fragments with
  | nil => rfl
  | cons f fragments ih =>
    simp only [List.countP_cons, List.length_cons]
    cases f.source <;> simp <;> omega

/-- What the service is taken to have given was read from a reply. -/
theorem read_of_answer {c : Compiler} {text : String} {a : Analysis} {o : RuleOutput}
    {wanted : List String} {asked : FallbackOutcome} (h : c.answer text a o wanted = .ok asked)
    {b : Bundle} (hb : asked.bundle = some b) : ∃ reply, Bundle.read reply = .ok b := by
  have hheard : ∀ reply, heard reply = .ok asked → ∃ reply, Bundle.read reply = .ok b := by
    intro reply hreply
    cases reply with
    | crashed message => cases hreply
    | failed e =>
      cases hreply
      cases hb
    | text reply =>
      simp only [heard] at hreply
      split at hreply
      · cases hreply
        cases hb
      · cases hreply
        cases hb
        exact ⟨reply, ‹_›⟩
  unfold answer at h
  split at h
  · cases h
    cases hb
  · cases h
    cases hb
  · exact hheard _ h

/-- The markup of an artifact is that of its fragments. -/
theorem markup_of_assemble {d : Document} {fragments : List Fragment} {strategy : Strategy}
    {degraded : Bool} {unresolved : List String} {r : Registry} {methods style : String}
    {artifact : Artifact}
    (h : Artifact.assemble d fragments strategy degraded unresolved r methods style =
      .ok artifact) : artifact.markup = Assembly.markup fragments := by
  obtain ⟨script, _, h⟩ := Failure.bind_ok h
  cases h
  rfl

/-- The script of an artifact is written for its markup. -/
theorem script_of_assemble {d : Document} {fragments : List Fragment} {strategy : Strategy}
    {degraded : Bool} {unresolved : List String} {r : Registry} {methods style : String}
    {artifact : Artifact}
    (h : Artifact.assemble d fragments strategy degraded unresolved r methods style =
      .ok artifact) :
    Assembly.script d fragments artifact.markup methods = .ok artifact.script := by
  obtain ⟨script, hscript, h⟩ := Failure.bind_ok h
  cases h
  exact hscript

/-- The fragments that a compilation counts are the places for components in its page. -/
theorem Stages.wrapperCount_eq {c : Compiler} {text : String} {result : Compilation}
    (s : c.Stages text result) :
    result.metrics.ruleFragments + result.metrics.fallbackFragments +
        result.metrics.placeholders = Assembly.wrapperCount s.assembled.markup := by
  have hd := Document.wellFormed_of_read s.read
  have hbundle : ∀ b, s.asked.bundle = some b → b.WellFormed := by
    intro b hb
    obtain ⟨reply, hreply⟩ := read_of_answer s.answer hb
    exact Bundle.wellFormed_of_read hreply
  have hnames : ∀ f ∈ (c.merged s.document result.analysis s.asked.bundle).1,
      Bundle.isName f.component.toList = true :=
    isName_of_mem_mergeFragments hd hbundle _ _ _ _
  rw [markup_of_assemble s.assemble, Assembly.wrapperCount_markup hnames, s.metrics]
  exact countFrom_sum _

end Compiler

open Compiler

/-- A merge loses no fragment and doubles none, and a compilation counts each fragment of its page
once. -/
theorem merge_accounts_for_fragments :
    (∀ (r : Registry) (a : Analysis) (strategy : Strategy) (wanted : List String) (text : String)
        (d : Document) (bundle : Option Bundle), Document.read text = .ok d →
      (∀ b, bundle = some b → ∃ reply, Bundle.read reply = .ok b) →
      let merged := mergeFragments d.components strategy (RuleOutput.generate r a d) bundle wanted
      let given := (bundle.map Bundle.fragments).getD []
      if strategy = .manualOnly ∧ bundle.isSome = true then
        merged = (given, ((d.components.map Component.name).filter fun name =>
          !(given.map Fragment.component).contains name).eraseDups)
      else ∃ placed, Accounted d.components given merged placed) ∧
    ∀ (c : Compiler) (text : String) (result : Compilation), (c.run text).1 = .ok result →
      ∃ s : c.Stages text result,
        result.metrics.ruleFragments + result.metrics.fallbackFragments +
          result.metrics.placeholders = Assembly.wrapperCount s.assembled.markup := by
  refine ⟨?_, ?_⟩
  · intro r a strategy wanted text d bundle hread hreply merged given
    have hbundle : ∀ b, bundle = some b → b.WellFormed := by
      intro b hb
      obtain ⟨reply, hreply⟩ := hreply b hb
      exact Bundle.wellFormed_of_read hreply
    have hlabel := labelled_generate (Document.wellFormed_of_read hread) hbundle r a
    split
    · rename_i hstrategy
      obtain ⟨rfl, hsome⟩ := hstrategy
      obtain ⟨b, rfl⟩ := Option.isSome_iff_exists.1 hsome
      exact mergeFragments_manualOnly _ _ _ _
    · rename_i hstrategy
      exact ⟨_, accounted_mergeFragments hlabel hbundle hstrategy wanted⟩
  · intro c text result hrun
    obtain ⟨s⟩ := exists_stages hrun
    exact ⟨s, s.wrapperCount_eq⟩

/-- A page with a part for the rules and a part for the service. -/
def chartPage : String :=
  "## UI Components\nsteps: \x7btype: progress_bar, current_step: 1, total_steps: 4\x7d\n" ++
    "chart: \x7btype: mystery, note: custom\x7d\n"

/-- An answer with a fragment that was asked for and one that was not. -/
def chartReply : String :=
  "<apml-artifact>\n<fragment component=\"extra\">\n<b>more</b>\n</fragment>\n" ++
    "<fragment component=\"chart\">\n<p>chart</p>\n</fragment>\n</apml-artifact>"

/-- The compiler whose service gives this answer, without canonical names. -/
def chartCompiler : Compiler :=
  { Compiler.standard with
    generator := some fun _ _ => .text chartReply
    policy := { runtimeMarker := "vue@3", identifierAliases := [], classAliases := [] } }

/-- One fragment by a rule and two from the service, of which one names no component. -/
theorem merge_accounts_for_fragments_chart :
    ∃ result b, (chartCompiler.run chartPage).1 = .ok result ∧
      result.metrics.ruleFragments = 1 ∧ result.metrics.fallbackFragments = 2 ∧
      Bundle.read chartReply = .ok b ∧
      ∃ s : chartCompiler.Stages chartPage result,
        result.metrics.ruleFragments + result.metrics.fallbackFragments +
          result.metrics.placeholders = Assembly.wrapperCount s.assembled.markup ∧
        ∃ placed, Accounted s.document.components b.fragments
          (mergeFragments s.document.components .hybrid
            (RuleOutput.generate .standard result.analysis s.document) (some b) ["chart"])
          placed := by
  obtain ⟨result, hrun, hcounts⟩ := @Failure.exists_ok _ _ (chartCompiler.run chartPage).1
    (fun r => r.metrics.ruleFragments == 1 && r.metrics.fallbackFragments == 2) (by decide +kernel)
  obtain ⟨b, hreply, -⟩ := @Failure.exists_ok _ _ (Bundle.read chartReply)
    (fun _ => true) (by decide +kernel)
  simp only [Bool.and_eq_true, beq_iff_eq] at hcounts
  obtain ⟨s, hsum⟩ := merge_accounts_for_fragments.2 _ _ _ hrun
  exact ⟨result, b, hrun, hcounts.1, hcounts.2, hreply, s, hsum,
    merge_accounts_for_fragments.1 .standard result.analysis .hybrid ["chart"] _ _ (some b) s.read
      (by rintro b' hb'; cases hb'; exact ⟨_, hreply⟩)⟩

end PageCompiler
