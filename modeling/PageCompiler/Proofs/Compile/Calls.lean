import PageCompiler.Proofs.Compile.Containment
import PageCompiler.Proofs.Compile.Degradation
import PageCompiler.Proofs.Compile.Targets
import PageCompiler.Proofs.Distinct
import PageCompiler.Proofs.Policy.Merging

/-!
# `PageCompiler.Proofs.Compile.Calls`: when the services are called

A compilation calls each service at most once, and the one that mends texts first. Whether it calls
them is decided by the text alone and by which services there are: `Repair.calls_ne_nil_iff` and
`Survey.calls_ne_nil_iff` give the conditions. A text that passes the check is always analysed
(`survey_of_verdict_ok`), so behind the check the condition is one on the strategy.

The service that renders is asked for names. They are those of the components that the rules leave
over, each once, in the order in which the names are first declared (`wanted_targets`).

What comes of the call is reported twice: an artifact is degraded exactly if the metrics give a
failure (`Stages.degraded_eq`), and they give one exactly if a service was needed and was of no use
(`Stages.failure_iff`).
-/

set_option autoImplicit false

namespace PageCompiler

namespace Repair

variable {text : String} {mender : Option Mender} {settings : CompilerSettings}

/-- The service that mends texts is called if there are defects and all of them can be mended. -/
theorem calls_ne_nil_iff :
    calls text mender settings ≠ [] ↔
      ∃ issues, Issue.detect text = .ok issues ∧ issues ≠ [] ∧
        (∀ i ∈ issues, i.repairable = true) ∧ mender.isSome = true := by
  unfold calls
  cases Issue.detect text with
  | error e => simp
  | ok issues =>
    have hall : (issues.any fun i => !i.repairable) = false ↔
        ∀ i ∈ issues, i.repairable = true := by
      simp
    cases mender with
    | none => simp
    | some m =>
      by_cases hempty : issues = []
      · simp [hempty]
      · cases hany : issues.any fun i => !i.repairable with
        | true => simp_all
        | false => simp_all

/-- A text is sent to be mended at most once. -/
theorem length_calls_le : (calls text mender settings).length ≤ 1 := by
  unfold calls
  split
  · exact Nat.zero_le 1
  · split
    · exact Nat.zero_le 1
    · split
      · exact Nat.zero_le 1
      · split
        · exact Nat.zero_le 1
        · exact Nat.le_refl 1

/-- A text that passes the check has no defects, or had them mended. -/
theorem detect_of_verdict {checked : String × List Issue}
    (h : verdict text mender settings = .ok checked) : Issue.detect checked.1 = .ok [] := by
  unfold verdict attempt at h
  split at h
  · cases h
  · rename_i issues hdetect
    split at h
    · rename_i hempty
      cases h
      rw [hdetect, List.isEmpty_iff.1 hempty]
    · split at h
      · cases h
      · split at h
        · cases h
        · split at h
          · cases h
          · cases h
          · split at h
            · cases h
            · rename_i remaining hremaining
              split at h
              · rename_i hempty
                cases h
                rw [hremaining, List.isEmpty_iff.1 hempty]
              · cases h

/-- What comes of the check does not depend on the notes that it takes. -/
theorem start_run (text : String) (mender : Option Mender) (settings : CompilerSettings) :
    (CompileM.start (run text mender settings)).1 = verdict text mender settings :=
  (notes_run text mender settings).yields Journal.empty

end Repair

namespace Compiler

variable {c : Compiler} {text : String}

/-! ### Behind the check -/

/-- A text that passes the check is read and analysed. -/
theorem survey_of_verdict_ok {checked : String × List Issue}
    (h : Repair.verdict text c.mender c.settings = .ok checked) :
    ∃ d a, Document.read checked.1 = .ok d ∧ Analysis.classify c.registry d = .ok a ∧
      c.survey text = .ok { checked, document := d, analysis := a } := by
  obtain ⟨d, hread⟩ := Issue.read_of_detect_nil (Repair.detect_of_verdict h)
  have hclassify := Analysis.classify_eq c.registry (Document.wellFormed_of_read hread)
  refine ⟨d, _, hread, hclassify, ?_⟩
  rw [survey, h]
  show ((Document.read checked.1).mapError CompileError.ofRead).bind _ = _
  rw [hread]
  show ((Analysis.classify c.registry d).mapError CompileError.analysis).bind _ = _
  rw [hclassify]
  rfl

theorem survey_of_verdict_error {e : CompileError}
    (h : Repair.verdict text c.mender c.settings = .error e) : c.survey text = .error e := by
  rw [survey, h]
  rfl

namespace Survey

variable {s : Survey}

/-- Without a service none is called. -/
theorem calls_of_none (h : c.generator = none) : s.calls c = [] := by
  unfold calls Compiler.calls
  rw [h]
  cases s.analysis.strategy with
  | automatic => rfl
  | hybrid => rfl
  | manualOnly => rfl

/-- The service that renders is called if the rules do not do it all. -/
theorem calls_ne_nil_iff :
    s.calls c ≠ [] ↔ s.analysis.strategy ≠ .automatic ∧ c.generator.isSome = true := by
  by_cases hstrategy : s.analysis.strategy = .automatic
  · simp [calls_of_automatic hstrategy, hstrategy]
  · cases hgenerator : c.generator with
    | none => simp [calls_of_none hgenerator]
    | some g =>
      obtain ⟨call, hcalls, -⟩ := exists_call hstrategy hgenerator
      simp [hcalls, hstrategy]

theorem length_calls_le : (s.calls c).length ≤ 1 := by
  by_cases hstrategy : s.analysis.strategy = .automatic
  · simp [calls_of_automatic hstrategy]
  · cases hgenerator : c.generator with
    | none => simp [calls_of_none hgenerator]
    | some g =>
      obtain ⟨call, hcalls, -⟩ := exists_call hstrategy hgenerator
      simp [hcalls]

/-- The service is asked for the targets. -/
theorem unresolved_of_mem_calls {call : FallbackRequest × Value} (h : call ∈ s.calls c) :
    call.1.unresolved = targets s.document.components s.analysis (s.output c) := by
  unfold calls Compiler.calls at h
  split at h
  · cases h
  · cases h
  · rw [List.mem_singleton.1 h]
    rfl

end Survey

end Compiler

/-! ### What the service is asked for -/

/-- The rules of a registry report on a component under its own name. -/
def Registry.ReportsOwn (r : Registry) : Prop :=
  ∀ p ∈ r.patterns, ∀ c e, p.refusal c = some e → e.component = c.name

/-- No standard rule refuses a component. -/
theorem Registry.reportsOwn_standard : Registry.standard.ReportsOwn := by
  intro p hp c e he
  rw [refusal_of_mem_standard hp] at he
  cases he

/-- A rule reports the component that it was given. -/
theorem RuleOutput.component_of_report? {r : Registry} (hr : r.ReportsOwn) {a : Analysis}
    {c : Component} {e : MissingFields} (h : report? r a c = some e) : e.component = c.name := by
  unfold report? at h
  split at h
  · rename_i e' hattempt
    cases h
    obtain ⟨id, -, hattempt⟩ := Option.bind_eq_some_iff.1 hattempt
    obtain ⟨p, hp, hattempt⟩ := Option.bind_eq_some_iff.1 hattempt
    have hgenerate : p.generate c = .error e := Option.some.inj hattempt
    unfold Pattern.generate at hgenerate
    split at hgenerate
    · cases hgenerate
    · rename_i hrefusal
      cases hgenerate
      exact hr p (List.mem_of_find?_eq_some hp) c e hrefusal
    · cases hgenerate
      rfl
  · cases h

namespace Compiler

variable {r : Registry} {a : Analysis} {d : Document}

/-- A component asks for itself if it is left over. -/
theorem mem_asksFor_iff_leftOver (hr : r.ReportsOwn) {comp : Component} {name : String} :
    name ∈ asksFor r a comp ↔ comp.name = name ∧ leftOver r a comp = true := by
  rw [mem_asksFor, leftOver, Bool.or_eq_true, Bool.or_eq_true]
  constructor
  · rintro (⟨h, rfl⟩ | ⟨e, he, rfl⟩)
    · exact ⟨rfl, .inl h⟩
    · exact ⟨(RuleOutput.component_of_report? hr he).symm, .inr (by rw [he]; rfl)⟩
  · rintro ⟨rfl, h | h⟩
    · exact .inl ⟨h, rfl⟩
    · obtain ⟨e, he⟩ := Option.isSome_iff_exists.1 h
      exact .inr ⟨e, he, RuleOutput.component_of_report? hr he⟩

/-- The names that the service is to be asked for: each once, in the order in which the components
first declare them, and those for which some component asks. If the rules report on components under
their own names, then these are the names of the components that the rules leave over. -/
structure Wanted (r : Registry) (a : Analysis) (cs : List Component) (names : List String) :
    Prop where
  nodup : names.Nodup
  ordered : names.Sublist (cs.map Component.name).eraseDups
  mem_iff : ∀ name, name ∈ names ↔
    name ∈ cs.map Component.name ∧ ∃ c ∈ cs, name ∈ asksFor r a c
  mem_iff_leftOver : r.ReportsOwn →
    ∀ name, name ∈ names ↔ ∃ c ∈ cs, c.name = name ∧ leftOver r a c = true

/-- The service is asked for the components that are left over. -/
theorem wanted_targets (hd : d.WellFormed) (ha : Analysis.classify r d = .ok a) :
    Wanted r a d.components (targets d.components a (RuleOutput.generate r a d)) where
  nodup := nodup_eraseDups _
  ordered := by
    rw [targets, eraseDups_filter]
    exact List.filter_sublist
  mem_iff _ := mem_targets hd ha
  mem_iff_leftOver hr name := by
    rw [mem_targets hd ha]
    simp only [mem_asksFor_iff_leftOver hr]
    refine and_iff_right_of_imp ?_
    rintro ⟨comp, hcomp, rfl, -⟩
    exact List.mem_map_of_mem hcomp

/-! ### What comes of the call -/

/-- The reply of a service brings a failure exactly if it is of no use. -/
theorem failure_isSome_iff_of_heard {reply : Reply} {asked : FallbackOutcome}
    (h : heard reply = .ok asked) : asked.failure.isSome = true ↔ reply.Useless := by
  cases reply with
  | crashed message => cases h
  | failed e =>
    cases h
    exact iff_of_true rfl trivial
  | text s =>
    simp only [heard] at h
    cases hread : Bundle.read s with
    | error e =>
      rw [hread] at h
      cases h
      exact iff_of_true rfl ⟨e, hread⟩
    | ok b =>
      rw [hread] at h
      cases h
      refine iff_of_false (by simp) ?_
      rintro ⟨e, he⟩
      rw [hread] at he
      cases he

end Compiler

/-- Canonical names do not change whether something is missing. -/
theorem Policy.degraded_of_apply {p : Policy} {a b : Artifact} (h : p.apply a = .ok b) :
    b.degraded = a.degraded := by
  obtain ⟨-, style, -, rfl⟩ := apply_eq_ok_iff.1 h
  rfl

namespace Compiler

theorem degraded_of_assemble {d : Document} {fragments : List Fragment} {strategy : Strategy}
    {degraded : Bool} {unresolved : List String} {r : Registry} {methods style : String}
    {artifact : Artifact}
    (h : Artifact.assemble d fragments strategy degraded unresolved r methods style =
      .ok artifact) : artifact.degraded = degraded := by
  obtain ⟨script, -, h⟩ := Failure.bind_ok h
  cases h
  rfl

namespace Stages

variable {c : Compiler} {text : String} {result : Compilation} (s : c.Stages text result)

include s

/-- What was known before the service was asked. -/
def toSurvey : Survey :=
  { checked := s.checked, document := s.document, analysis := result.analysis }

theorem survey_eq : c.survey text = .ok s.toSurvey := by
  rw [survey, s.verdict]
  show ((Document.read s.checked.1).mapError CompileError.ofRead).bind _ = _
  rw [s.read]
  show ((Analysis.classify c.registry s.document).mapError CompileError.analysis).bind _ = _
  rw [s.classify]
  rfl

theorem failure_eq : result.metrics.fallbackFailure = s.asked.failure := by
  rw [s.metrics]
  rfl

/-- A page is degraded exactly if the service failed. -/
theorem degraded_eq : result.artifact.degraded = result.metrics.fallbackFailure.isSome := by
  have hassembled : s.assembled.degraded = s.asked.failure.isSome :=
    degraded_of_assemble s.assemble
  rw [s.failure_eq, ← hassembled]
  rcases canonical_outcomes s.canonical with ⟨-, happly⟩ | ⟨-, hsame, -⟩
  · exact Policy.degraded_of_apply happly
  · rw [hsame]

/-- A failure is reported exactly if a service was needed, and there was none or its reply was of no
use. -/
theorem failure_iff :
    result.metrics.fallbackFailure.isSome = true ↔
      result.analysis.strategy ≠ .automatic ∧
        (c.generator = none ∨ ∃ g call, c.generator = some g ∧
          (c.run text).2.generations = [call] ∧ (g call.1 call.2).Useless) := by
  have hanswer : s.toSurvey.answer c = .ok s.asked := s.answer
  rw [s.failure_eq, run_generations, s.survey_eq, CompileM.behind_ok]
  by_cases hstrategy : result.analysis.strategy = .automatic
  · rw [Survey.answer_of_automatic (s := s.toSurvey) hstrategy] at hanswer
    simp [← Except.ok.inj hanswer, hstrategy]
  · cases hgenerator : c.generator with
    | none =>
      rw [Survey.answer_of_none (s := s.toSurvey) hstrategy hgenerator] at hanswer
      simp [← Except.ok.inj hanswer, hstrategy]
    | some g =>
      obtain ⟨call, hcalls, hheard⟩ :=
        Survey.exists_call (s := s.toSurvey) hstrategy hgenerator
      rw [hheard] at hanswer
      rw [failure_isSome_iff_of_heard hanswer, hcalls]
      simp [hstrategy]

end Stages

end Compiler

open Compiler

/-- How a compilation uses the services, and what it says about it. Each service is called at most
once, and the one that mends texts comes first. That one is called exactly if there are defects that
can all be mended. A text that passes the check is analysed, and then the other service is called
exactly if the strategy is not the automatic one, for the components that the rules leave over.
Without that it is not called.

A compilation that succeeds gives a degraded artifact exactly if it reports a failure, and it
reports one exactly if the service was needed and was of no use. The artifact has its canonical
names, or it is the one that was put together. -/
theorem run_calls_services (c : Compiler) (text : String) :
    let check := (CompileM.start (Repair.run text c.mender c.settings)).1
    let j := (c.run text).2
    (j.calls = j.repairs.map .repair ++ j.generations.map .generation ∧
      j.repairs.length ≤ 1 ∧ j.generations.length ≤ 1) ∧
    (j.repairs ≠ [] ↔ ∃ issues, Issue.detect text = .ok issues ∧ issues ≠ [] ∧
      (∀ i ∈ issues, i.repairable = true) ∧ c.mender.isSome = true) ∧
    (∀ e, check = .error e → j.generations = []) ∧
    (∀ usable repaired, check = .ok (usable, repaired) →
      ∃ d a, Document.read usable = .ok d ∧ Analysis.classify c.registry d = .ok a ∧
        (j.generations ≠ [] ↔
          (a.strategy = .hybrid ∨ a.strategy = .manualOnly) ∧ c.generator.isSome = true) ∧
        ∀ call ∈ j.generations, Wanted c.registry a d.components call.1.unresolved) ∧
    ∀ result, (c.run text).1 = .ok result →
      (result.artifact.degraded = true ↔ result.metrics.fallbackFailure.isSome = true) ∧
      (result.metrics.fallbackFailure.isSome = true ↔
        result.analysis.strategy ≠ .automatic ∧
          (c.generator = none ∨ ∃ g call, c.generator = some g ∧ j.generations = [call] ∧
            (g call.1 call.2).Useless)) ∧
      ∃ stages : c.Stages text result,
        if result.metrics.normalized then c.policy.apply stages.assembled = .ok result.artifact
        else result.artifact = stages.assembled ∧
          ∃ pairs, c.policy.apply stages.assembled = .error (.conflict pairs) := by
  intro check j
  have hcheck : check = Repair.verdict text c.mender c.settings := Repair.start_run _ _ _
  have hgenerations : j.generations = CompileM.behind (c.survey text) fun s => s.calls c :=
    run_generations c text
  refine ⟨⟨?_, ?_, ?_⟩, ?_, ?_, ?_, ?_⟩
  · show (c.run text).2.calls = _
    rw [run_calls, ← run_repairs, ← run_generations]
  · show (c.run text).2.repairs.length ≤ 1
    rw [run_repairs]
    exact Repair.length_calls_le
  · rw [hgenerations]
    cases c.survey text with
    | error e => exact Nat.zero_le 1
    | ok s => exact Survey.length_calls_le
  · show (c.run text).2.repairs ≠ [] ↔ _
    rw [run_repairs]
    exact Repair.calls_ne_nil_iff
  · intro e herror
    rw [hgenerations, survey_of_verdict_error (hcheck ▸ herror), CompileM.behind_error]
  · intro usable repaired hok
    obtain ⟨d, a, hread, hclassify, hsurvey⟩ := survey_of_verdict_ok (hcheck ▸ hok)
    refine ⟨d, a, hread, hclassify, ?_⟩
    rw [hgenerations, hsurvey, CompileM.behind_ok]
    refine ⟨?_, fun call hcall => ?_⟩
    · rw [Survey.calls_ne_nil_iff]
      refine and_congr_left' ?_
      cases a.strategy with
      | automatic => simp
      | hybrid => simp
      | manualOnly => simp
    · rw [Survey.unresolved_of_mem_calls hcall]
      exact wanted_targets (Document.wellFormed_of_read hread) hclassify
  · intro result hresult
    obtain ⟨stages⟩ := exists_stages hresult
    refine ⟨by rw [stages.degraded_eq], stages.failure_iff, stages, ?_⟩
    rcases canonical_outcomes stages.canonical with ⟨hnormalized, happly⟩ | ⟨hnormalized, hrefused⟩
    · rw [if_pos hnormalized]
      exact happly
    · rw [hnormalized]
      exact hrefused

/-- A compiler with a service that mends every text to a page with a progress bar, and with one that
answers without fragments. There are no canonical names. -/
def hollowCompiler : Compiler :=
  { Compiler.standard with
    mender := some fun _ _ => .text (barPage ", note: custom")
    generator := some hollowService
    policy := { runtimeMarker := "vue@3", identifierAliases := [], classAliases := [] } }

/-- A text that is mended to a page on which the rules leave the bar over. Both services are called,
and the second one is of no use. -/
theorem run_calls_services_mended :
    ∃ r g result, (hollowCompiler.run "note").2.calls = [.repair r, .generation g] ∧
      "bar" ∈ g.1.unresolved ∧ (hollowCompiler.run "note").1 = .ok result ∧
      result.artifact.degraded = true := by
  obtain ⟨⟨hcalls, hrepairs, hgenerations⟩, hmended, -, hchecked, hresult⟩ :=
    run_calls_services hollowCompiler "note"
  obtain ⟨checked, hcheck, hpage⟩ := @Failure.exists_ok _ _
    (CompileM.start (Repair.run "note" hollowCompiler.mender hollowCompiler.settings)).1
    (fun checked => (Document.read checked.1).toOption.any fun d =>
      (Analysis.classify .standard d).toOption.any fun a => a.strategy == .hybrid &&
        d.components.any fun c => c.name == "bar" && leftOver .standard a c) (by decide +kernel)
  obtain ⟨d, a, hread, hclassify, hcalled, hwanted⟩ := hchecked checked.1 checked.2 hcheck
  have hclassify' : Analysis.classify .standard d = .ok a := hclassify
  simp only [hread, hclassify', Except.toOption, Option.any_some, Bool.and_eq_true, beq_iff_eq,
    List.any_eq_true] at hpage
  obtain ⟨hstrategy, bar, hbar, hname, hleft⟩ := hpage
  have hdetect : Issue.detect "note" = .ok [.missingSection "ui_components"] := by rfl
  obtain ⟨r, hr⟩ : ∃ r, (hollowCompiler.run "note").2.repairs = [r] := by
    refine List.length_eq_one_iff.1 (Nat.le_antisymm hrepairs (List.length_pos_iff.2 ?_))
    exact hmended.2 ⟨_, hdetect, by simp, by simp [Issue.repairable], rfl⟩
  obtain ⟨g, hg⟩ : ∃ g, (hollowCompiler.run "note").2.generations = [g] := by
    refine List.length_eq_one_iff.1 (Nat.le_antisymm hgenerations (List.length_pos_iff.2 ?_))
    exact hcalled.2 ⟨.inl hstrategy, rfl⟩
  obtain ⟨result, hrun, hfailure⟩ := @Failure.exists_ok _ _ (hollowCompiler.run "note").1
    (fun result => result.metrics.fallbackFailure.isSome) (by decide +kernel)
  refine ⟨r, g, result, ?_, ?_, hrun, (hresult result hrun).1.2 hfailure⟩
  · rw [hcalls, hr, hg]
    rfl
  · refine ((hwanted g (by rw [hg]; exact List.mem_singleton_self g)).mem_iff_leftOver
      Registry.reportsOwn_standard "bar").2 ⟨bar, hbar, hname, hleft⟩

end PageCompiler
