import PageCompiler.Proofs.Compile.Outcome

/-!
# `PageCompiler.Proofs.Compile.Degradation`: a service that is of no use

A service may fail to answer, or answer with a text that holds no bundle. The compilation goes on,
and this file compares it with the one that has no service at all. An artifact depends on what came
of asking through two things only: the bundle, and whether there was a failure
(`artifactFrom_congr`). A useless reply gives no bundle and a failure, and so does a service that is
not there. Why the service failed is reported in the metrics and stands nowhere in the artifact.

Under the automatic strategy the service is not asked, so it does not matter what it would say.
-/

set_option autoImplicit false

namespace PageCompiler

/-- A reply of no use: the service could not answer, or there is no bundle in its text. A breakdown
is not among these replies, since it ends the compilation. -/
def Reply.Useless : Reply → Prop
  | .text s => ∃ e, Bundle.read s = .error e
  | .failed _ => True
  | .crashed _ => False

namespace Compiler

/-- A useless reply leaves a reason and no fragments. -/
theorem heard_of_useless {reply : Reply} (h : reply.Useless) :
    ∃ reason, heard reply = .ok { called := true, failure := some reason, bundle := none } := by
  cases reply with
  | text s =>
    obtain ⟨e, hread⟩ := h
    exact ⟨e.reason, by simp only [heard, hread]⟩
  | failed e => exact ⟨e.reason, rfl⟩
  | crashed message => cases h

/-- The artifact of a document, by what came of asking the service. -/
def artifactFrom (c : Compiler) (d : Document) (a : Analysis) (asked : FallbackOutcome) :
    Except CompileError Artifact := do
  let assembled ← (c.assembled d a asked).mapError .kind
  let named ← canonical c.policy assembled
  return named.1

/-- An artifact depends on the service through the bundle and through whether there was a
failure. -/
theorem artifactFrom_congr (c : Compiler) (d : Document) (a : Analysis)
    {asked asked' : FallbackOutcome} (hbundle : asked.bundle = asked'.bundle)
    (hfailure : asked.failure.isSome = asked'.failure.isSome) :
    c.artifactFrom d a asked = c.artifactFrom d a asked' := by
  unfold artifactFrom assembled
  rw [hbundle, hfailure]

namespace Survey

/-- What comes of asking the service behind a survey. -/
def answer (s : Survey) (c : Compiler) : Except CompileError FallbackOutcome :=
  c.answer s.checked.1 s.analysis (s.output c)
    (targets s.document.components s.analysis (s.output c))

theorem build_map_artifact (s : Survey) (c : Compiler) :
    (s.build c).map Compilation.artifact =
      s.answer c >>= c.artifactFrom s.document s.analysis := by
  show Compilation.artifact <$> s.build c = _
  unfold build Compiler.build artifactFrom
  simp only [map_bind, map_pure]
  rfl

variable {s : Survey} {c : Compiler}

/-- The analysis of a result is the one that was made before the service was asked. -/
theorem analysis_of_build {result : Compilation} (h : s.build c = .ok result) :
    result.analysis = s.analysis := by
  obtain ⟨asked, -, h⟩ := Failure.bind_ok h
  obtain ⟨assembled, -, h⟩ := Failure.bind_ok h
  obtain ⟨named, -, h⟩ := Failure.bind_ok h
  cases h
  rfl

/-- Under the automatic strategy no service is asked, whichever there is. -/
theorem calls_of_automatic (h : s.analysis.strategy = .automatic) : s.calls c = [] := by
  unfold calls Compiler.calls
  rw [h]

theorem answer_of_automatic (h : s.analysis.strategy = .automatic) :
    s.answer c = .ok { called := false, failure := none, bundle := none } := by
  unfold answer Compiler.answer
  rw [h]

/-- Under the other strategies a missing service is a failure. -/
theorem answer_of_none (h : s.analysis.strategy ≠ .automatic) (hnone : c.generator = none) :
    s.answer c = .ok { called := false, failure := some "no_backend", bundle := none } := by
  unfold answer Compiler.answer
  rw [hnone]
  cases hstrategy : s.analysis.strategy with
  | automatic => exact absurd hstrategy h
  | hybrid => rfl
  | manualOnly => rfl

/-- Under the other strategies a service is asked once, and its reply is heard. -/
theorem exists_call {g : Generator} (h : s.analysis.strategy ≠ .automatic)
    (hsome : c.generator = some g) :
    ∃ call, s.calls c = [call] ∧ s.answer c = heard (g call.1 call.2) := by
  unfold calls Compiler.calls answer Compiler.answer
  rw [hsome]
  cases hstrategy : s.analysis.strategy with
  | automatic => exact absurd hstrategy h
  | hybrid => exact ⟨_, rfl, rfl⟩
  | manualOnly => exact ⟨_, rfl, rfl⟩

end Survey

/-- A compiler with another service, or with none. -/
def withService (c : Compiler) (service : Option Generator) : Compiler :=
  { c with generator := service }

/-- What is known before the service is asked does not depend on it. -/
theorem survey_withService (c : Compiler) (service : Option Generator) (text : String) :
    (c.withService service).survey text = c.survey text := rfl

/-- Behind a survey with the automatic strategy the outcome does not depend on the service. -/
theorem Survey.build_withService {s : Survey} (h : s.analysis.strategy = .automatic)
    (c : Compiler) (service service' : Option Generator) :
    s.build (c.withService service) = s.build (c.withService service') := by
  have hanswer : s.answer (c.withService service) = s.answer (c.withService service') := by
    rw [answer_of_automatic h, answer_of_automatic h]
  show s.answer (c.withService service) >>= _ = s.answer (c.withService service') >>= _
  rw [hanswer]
  rfl

/-- A useless service and a missing one give the same artifact. -/
theorem Survey.artifact_of_useless {s : Survey} {c : Compiler} {g : Generator}
    (h : ∀ call ∈ s.calls (c.withService (some g)), (g call.1 call.2).Useless) :
    (s.build (c.withService (some g))).map Compilation.artifact =
      (s.build (c.withService none)).map Compilation.artifact := by
  by_cases hstrategy : s.analysis.strategy = .automatic
  · rw [build_withService hstrategy]
  · obtain ⟨call, hcalls, hanswer⟩ := exists_call hstrategy (c := c.withService (some g)) rfl
    rw [hcalls] at h
    obtain ⟨reason, hheard⟩ := heard_of_useless (h call (List.mem_singleton_self call))
    rw [build_map_artifact, build_map_artifact, hanswer, hheard, answer_of_none hstrategy rfl]
    -- The two failures differ in their reasons, and no artifact holds a reason.
    exact artifactFrom_congr c s.document s.analysis rfl rfl

end Compiler

/-- A service that fails leaves no trace in the artifact. If every reply that a compilation gets is
useless, then it comes to the artifact of the compilation without a service, or to the failure of
that one. If the strategy is automatic, then the whole outcome is the one without a service, and the
service is not called. The strategy is chosen before any service is asked, and a compilation that
succeeds reports it. -/
theorem failing_service_leaves_no_trace (c : Compiler) (text : String) (g : Generator) :
    ((∀ call ∈ ((c.withService (some g)).run text).2.generations, (g call.1 call.2).Useless) →
      ((c.withService (some g)).run text).1.map Compilation.artifact =
        ((c.withService none).run text).1.map Compilation.artifact) ∧
    (∀ s, c.survey text = .ok s → s.analysis.strategy = .automatic →
      ((c.withService (some g)).run text).1 = ((c.withService none).run text).1 ∧
        ((c.withService (some g)).run text).2.generations = []) ∧
    ∀ result, ((c.withService none).run text).1 = .ok result →
      ∃ s, c.survey text = .ok s ∧ s.analysis = result.analysis := by
  rw [Compiler.run_generations, Compiler.run_fst_eq_survey_bind, Compiler.run_fst_eq_survey_bind,
    Compiler.survey_withService, Compiler.survey_withService]
  refine ⟨?_, ?_, ?_⟩
  · intro huseless
    cases hsurvey : c.survey text with
    | error e => rfl
    | ok s =>
      rw [hsurvey] at huseless
      exact Compiler.Survey.artifact_of_useless huseless
  · intro s hsurvey hstrategy
    rw [hsurvey]
    exact ⟨Compiler.Survey.build_withService hstrategy c _ _,
      Compiler.Survey.calls_of_automatic hstrategy⟩
  · intro result hrun
    obtain ⟨s, hsurvey, hbuild⟩ := Failure.bind_ok hrun
    exact ⟨s, hsurvey, (Compiler.Survey.analysis_of_build hbuild).symm⟩

/-- A page with a progress bar that lacks what its rule needs. -/
def barPage (more : String) : String :=
  "## UI Components\nbar: \x7btype: progress_bar" ++ more ++ "\x7d\n"

/-- A service that answers without fragments. -/
def hollowService : Generator := fun _ _ => .text "<apml-artifact></apml-artifact>"

/-- A service that is asked and answers without fragments, and one that would break down if it were
asked. The second page has no complex word, so that a placeholder does for its bar. -/
theorem failing_service_leaves_no_trace_bar :
    let hollow := Compiler.standard.withService (some hollowService)
    let broken := Compiler.standard.withService (some fun _ _ => .crashed "down")
    let alone := Compiler.standard.withService none
    (hollow.run (barPage ", note: custom")).2.generations ≠ [] ∧
    (hollow.run (barPage ", note: custom")).1.map Compilation.artifact =
      (alone.run (barPage ", note: custom")).1.map Compilation.artifact ∧
    (∃ s, Compiler.standard.survey (barPage "") = .ok s ∧ s.analysis.strategy = .automatic) ∧
    (broken.run (barPage "")).1 = (alone.run (barPage "")).1 ∧
    (broken.run (barPage "")).2.generations = [] := by
  obtain ⟨s, hsurvey, hshared⟩ := @Failure.exists_ok _ _
    (Compiler.standard.survey (barPage ", note: custom"))
    (fun s => s.analysis.strategy == .hybrid) (by decide +kernel)
  obtain ⟨s', hsurvey', hruled⟩ := @Failure.exists_ok _ _
    (Compiler.standard.survey (barPage ""))
    (fun s => s.analysis.strategy == .automatic) (by decide +kernel)
  obtain ⟨e, hread, -⟩ := @Failure.exists_error _ _
    (Bundle.read "<apml-artifact></apml-artifact>") (fun _ => true) (by decide +kernel)
  have huseless : ∀ r timeout, (hollowService r timeout).Useless := fun _ _ => ⟨e, hread⟩
  have hshared : s.analysis.strategy ≠ .automatic := by
    rw [beq_iff_eq.1 hshared]
    exact Strategy.noConfusion
  obtain ⟨call, hcalls, -⟩ := Compiler.Survey.exists_call (g := hollowService)
    (c := Compiler.standard.withService (some hollowService)) hshared rfl
  refine ⟨?_, ?_, ⟨s', hsurvey', beq_iff_eq.1 hruled⟩, ?_⟩
  · rw [Compiler.run_generations, Compiler.survey_withService, hsurvey, CompileM.behind_ok, hcalls]
    exact List.cons_ne_nil call []
  · exact (failing_service_leaves_no_trace .standard (barPage ", note: custom") hollowService).1
      fun call _ => huseless call.1 call.2
  · exact (failing_service_leaves_no_trace .standard (barPage "") _).2.1 s' hsurvey'
      (beq_iff_eq.1 hruled)

end PageCompiler
