import PageCompiler.Compile
import PageCompiler.Proofs.Failure

/-!
# `PageCompiler.Proofs.Compile.Outcome`: the outcome of a compilation and the calls it makes

A compilation notes what it does, but never looks at what it has noted. So its outcome is a plain
function of its input: `Repair.verdict` for the check of the text, `Compiler.answer` for the call of
the service, and `Compiler.outcome` for the whole. `run_fst` says that this is what `Compiler.run`
gives. The calls that it notes are plain functions of the input too, also those of a compilation
that fails: `run_calls` gives all of them in order, `run_repairs` and `run_generations` those of
each service.

A step of a compilation `Yields` an outcome if it comes to it from every journal. It `Notes` calls
if it adds them to every journal.
-/

set_option autoImplicit false

namespace PageCompiler

namespace CompileM

variable {α β : Type}

/-- The outcome of a step that starts from a journal, and the journal behind it. -/
def runFrom (m : CompileM α) (j : Journal) : Except CompileError α × Journal :=
  (ExceptT.run m).run j

/-- A step goes on where the one before it ended, unless that one failed. -/
theorem runFrom_bind (m : CompileM α) (k : α → CompileM β) (j : Journal) :
    runFrom (m >>= k) j =
      match runFrom m j with
      | (.ok a, j) => runFrom (k a) j
      | (.error e, j) => (.error e, j) := by
  unfold runFrom
  rw [ExceptT.run_bind, StateT.run_bind]
  cases (ExceptT.run m).run j with
  | mk x j =>
    cases x with
    | ok a => rfl
    | error e => rfl

/-- A step comes to an outcome, whatever has been noted before. -/
def Yields (m : CompileM α) (x : Except CompileError α) : Prop :=
  ∀ j, (runFrom m j).1 = x

/-- A step comes to an outcome and adds calls of the services to the journal. -/
structure Notes (m : CompileM α) (x : Except CompileError α) (calls : List Journal.Call) :
    Prop where
  yields : Yields m x
  calls_eq : ∀ j, (runFrom m j).2.calls = j.calls ++ calls

/-- What is listed behind a step. There is nothing if it fails. -/
def behind {γ : Type} (x : Except CompileError α) (listed : α → List γ) : List γ :=
  match x with
  | .ok a => listed a
  | .error _ => []

@[simp] theorem behind_ok {γ : Type} (a : α) (listed : α → List γ) :
    behind (.ok a) listed = listed a := rfl

@[simp] theorem behind_error {γ : Type} (e : CompileError) (listed : α → List γ) :
    behind (.error e) listed = [] := rfl

theorem behind_bind {γ : Type} (x : Except CompileError α) (f : α → Except CompileError β)
    (listed : β → List γ) :
    behind (x >>= f) listed = behind x fun a => behind (f a) listed := by
  cases x with
  | ok a => rfl
  | error e => rfl

theorem behind_map {γ δ : Type} (x : Except CompileError α) (listed : α → List γ) (f : γ → δ) :
    (behind x fun a => (listed a).map f) = (behind x listed).map f := by
  cases x with
  | ok a => rfl
  | error e => rfl

/-- A step that only logs events makes no call. -/
theorem notes_events (f : Journal → List Event) :
    Notes (modify fun j => { j with events := f j }) (.ok ()) [] where
  yields _ := rfl
  calls_eq _ := (List.append_nil _).symm

theorem notes_log (name : String) (fields : Fields) : Notes (log name fields) (.ok ()) [] :=
  notes_events _

/-- A step that only notes a call. -/
theorem notes_call (call : Journal.Call) :
    Notes (modify fun j => { j with calls := j.calls ++ [call] }) (.ok ()) [call] where
  yields _ := rfl
  calls_eq _ := rfl

theorem notes_pure (a : α) : Notes (pure a) (.ok a) [] where
  yields _ := rfl
  calls_eq _ := (List.append_nil _).symm

theorem notes_throw (e : CompileError) : Notes (throw e : CompileM α) (.error e) [] where
  yields _ := rfl
  calls_eq _ := (List.append_nil _).symm

theorem notes_orFail {ε : Type} (f : ε → CompileError) (x : Except ε α) :
    Notes (orFail f x) (x.mapError f) [] := by
  cases x with
  | ok a => exact notes_pure a
  | error e => exact notes_throw (f e)

section

variable {m : CompileM α} {k : α → CompileM β} {calls calls' : List Journal.Call}

/-- Behind a step that succeeds, the next one starts from the journal that the first one left. -/
theorem Yields.runFrom_bind {a : α} (hm : Yields m (.ok a)) (j : Journal) :
    runFrom (m >>= k) j = runFrom (k a) (runFrom m j).2 := by
  have hfirst := hm j
  rw [CompileM.runFrom_bind]
  cases hrun : runFrom m j with
  | mk x j =>
    rw [hrun] at hfirst
    subst hfirst
    rfl

/-- Behind a step that fails nothing is done. -/
theorem Yields.runFrom_bind_of_error {e : CompileError} (hm : Yields m (.error e)) (j : Journal) :
    runFrom (m >>= k) j = (.error e, (runFrom m j).2) := by
  have hfirst := hm j
  rw [CompileM.runFrom_bind]
  cases hrun : runFrom m j with
  | mk x j =>
    rw [hrun] at hfirst
    subst hfirst
    rfl

theorem Notes.after {a : α} {y : Except CompileError β} (hm : Notes m (.ok a) calls)
    (hk : Notes (k a) y calls') : Notes (m >>= k) y (calls ++ calls') where
  yields j := by
    rw [hm.yields.runFrom_bind]
    exact hk.yields _
  calls_eq j := by
    rw [hm.yields.runFrom_bind, hk.calls_eq, hm.calls_eq, List.append_assoc]

theorem Notes.failed {e : CompileError} (hm : Notes m (.error e) calls) :
    Notes (m >>= k) (.error e) calls where
  yields j := by rw [hm.yields.runFrom_bind_of_error]
  calls_eq j := by rw [hm.yields.runFrom_bind_of_error, hm.calls_eq]

/-- Behind a step that succeeds without a call. -/
theorem Notes.then {a : α} {y : Except CompileError β} (hm : Notes m (.ok a) [])
    (hk : Notes (k a) y calls) : Notes (m >>= k) y calls :=
  hm.after hk

/-- The calls of two steps, in order. -/
theorem Notes.bind {x : Except CompileError α} {f : α → Except CompileError β}
    {rest : α → List Journal.Call} (hm : Notes m x calls) (hk : ∀ a, Notes (k a) (f a) (rest a)) :
    Notes (m >>= k) (x >>= f) (calls ++ behind x rest) := by
  cases x with
  | ok a => exact hm.after (hk a)
  | error e =>
    rw [behind_error, List.append_nil]
    exact hm.failed

/-- Two steps of which the second makes no call. -/
theorem Notes.finish {x : Except CompileError α} {f : α → Except CompileError β}
    (hm : Notes m x calls) (hk : ∀ a, Notes (k a) (f a) []) :
    Notes (m >>= k) (x >>= f) calls := by
  have hboth := hm.bind hk
  rwa [show behind x (fun _ => []) = [] by cases x <;> rfl, List.append_nil] at hboth

end

end CompileM

open CompileM

/-- What comes of the one attempt to mend a text with defects. -/
def Repair.attempt (text : String) (issues : List Issue) (settings : CompilerSettings) :
    Option Mender → Except CompileError (String × List Issue)
  | none =>
    .error (.unrepairable
      (Issue.summary "APML has issues and no repair capability is configured" issues) issues [])
  | some mender =>
    match mender (request text issues settings) settings.repairTimeout with
    | .crashed message => .error (.crashed message)
    | .failed e =>
      .error (.unrepairable
        (Issue.summary ("APML repair failed (" ++ e.reason ++ ")") issues) issues [])
    | .text reply =>
      match Issue.detect (stripFences reply) with
      | .error e => .error (.numeral e)
      | .ok remaining =>
        if remaining.isEmpty then .ok (stripFences reply, issues)
        else
          .error (.unrepairable (Issue.summary "APML issues persist after repair" issues)
            issues remaining)

/-- A text that can be compiled, and the defects that were mended to get it, or why there is
none. -/
def Repair.verdict (text : String) (mender : Option Mender) (settings : CompilerSettings) :
    Except CompileError (String × List Issue) :=
  match Issue.detect text with
  | .error e => .error (.numeral e)
  | .ok issues =>
    if issues.isEmpty then .ok (text, [])
    else if issues.any fun i => !i.repairable then
      .error (.rejected (Issue.summary "APML input rejected" issues) issues)
    else attempt text issues settings mender

/-- The calls of the service that mends texts. It is called if the text has defects and all of them
can be mended. -/
def Repair.calls (text : String) (mender : Option Mender) (settings : CompilerSettings) :
    List (RepairRequest × Value) :=
  match Issue.detect text with
  | .error _ => []
  | .ok issues =>
    if issues.isEmpty then []
    else if issues.any fun i => !i.repairable then []
    else
      match mender with
      | none => []
      | some _ => [(request text issues settings, settings.repairTimeout)]

theorem Repair.notes_call (mender : Mender) (r : RepairRequest) (timeout : Value) :
    Notes (call mender r timeout) (.ok (mender r timeout)) [.repair (r, timeout)] :=
  (CompileM.notes_call _).after (notes_pure _)

/-- Checking comes to its verdict and notes its calls. -/
theorem Repair.notes_run (text : String) (mender : Option Mender) (settings : CompilerSettings) :
    Notes (run text mender settings) (verdict text mender settings)
      ((calls text mender settings).map .repair) := by
  unfold run verdict calls
  cases hdetect : Issue.detect text with
  | error e => exact (notes_orFail CompileError.numeral (.error e)).failed
  | ok issues =>
    refine (notes_orFail CompileError.numeral (.ok issues)).then ?_
    simp only
    split
    · exact notes_pure _
    · split
      · exact (notes_throw _).failed
      · cases mender with
        | none => exact notes_throw _
        | some mender =>
          -- Whatever comes of the reply, the call is noted by then.
          refine (notes_log _ _).then ((notes_call _ _ _).after ?_)
          simp only [attempt]
          cases mender (request text issues settings) settings.repairTimeout with
          | crashed message => exact notes_throw _
          | failed e => exact (notes_log _ _).then (notes_throw _)
          | text reply =>
            simp only
            cases Issue.detect (stripFences reply) with
            | error e => exact (notes_orFail CompileError.numeral (.error e)).failed
            | ok remaining =>
              refine (notes_orFail CompileError.numeral (.ok remaining)).then ?_
              simp only
              split
              · exact (notes_log _ _).then (notes_pure _)
              · exact (notes_log _ _).then (notes_throw _)

namespace Compiler

/-- What comes of a reply of the service. -/
def heard : Reply → Except CompileError FallbackOutcome
  | .crashed message => .error (.crashed message)
  | .failed e => .ok { called := true, failure := some e.reason, bundle := none }
  | .text reply =>
    match Bundle.read reply with
    | .error e => .ok { called := true, failure := some e.reason, bundle := none }
    | .ok b => .ok { called := true, failure := none, bundle := some b }

/-- What comes of asking the service. -/
def answer (c : Compiler) (text : String) (a : Analysis) (o : RuleOutput) (wanted : List String) :
    Except CompileError FallbackOutcome :=
  match a.strategy, c.generator with
  | .automatic, _ => .ok { called := false, failure := none, bundle := none }
  | _, none => .ok { called := false, failure := some "no_backend", bundle := none }
  | _, some generator =>
    heard (generator (Fallback.request text (ruleMarkup o) wanted c.styleGuide c.settings)
      c.settings.fallbackTimeout)

/-- The calls of the service for what the rules leave over. It is called unless they leave
nothing. -/
def calls (c : Compiler) (text : String) (a : Analysis) (o : RuleOutput) (wanted : List String) :
    List (FallbackRequest × Value) :=
  match a.strategy, c.generator with
  | .automatic, _ => []
  | _, none => []
  | _, some _ =>
    [(Fallback.request text (ruleMarkup o) wanted c.styleGuide c.settings,
      c.settings.fallbackTimeout)]

/-- Asking the service comes to its answer and notes its calls. -/
theorem notes_askService (c : Compiler) (text : String) (a : Analysis) (o : RuleOutput)
    (wanted : List String) :
    Notes (c.askService text a o wanted) (c.answer text a o wanted)
      ((c.calls text a o wanted).map .generation) := by
  -- The reply is taken in the same way under both strategies that ask for one.
  have hheard : ∀ (call : FallbackRequest × Value) (reply : Reply), Notes (do
      modify fun j => { j with calls := j.calls ++ [.generation call] }
      match reply with
      | .crashed message => throw (.crashed message)
      | .failed e => return { called := true, failure := some e.reason, bundle := none }
      | .text reply =>
        match Bundle.read reply with
        | .error e => return { called := true, failure := some e.reason, bundle := none }
        | .ok b => return { called := true, failure := none, bundle := some b }) (heard reply)
      [.generation call] := by
    intro call reply
    refine (notes_call _).after ?_
    cases reply with
    | crashed message => exact notes_throw _
    | failed e => exact notes_pure _
    | text reply =>
      simp only [heard]
      cases Bundle.read reply with
      | error e => exact notes_pure _
      | ok b => exact notes_pure _
  unfold askService answer calls
  cases a.strategy with
  | automatic => exact notes_pure _
  | hybrid =>
    cases c.generator with
    | none => exact notes_pure _
    | some generator => exact hheard _ _
  | manualOnly =>
    cases c.generator with
    | none => exact notes_pure _
    | some generator => exact hheard _ _

/-- An artifact with its canonical names, if no two members would be merged, and whether it has
them. -/
def canonical (p : Policy) (a : Artifact) : Except CompileError (Artifact × Bool) :=
  match p.apply a with
  | .ok a => .ok (a, true)
  | .error (.template e) => .error (.template e)
  | .error (.conflict _) => .ok (a, false)

/-- An artifact has its canonical names, or a merge was refused and it is as it was. -/
theorem canonical_outcomes {p : Policy} {a b : Artifact} {normalized : Bool}
    (h : canonical p a = .ok (b, normalized)) :
    (normalized = true ∧ p.apply a = .ok b) ∨
      (normalized = false ∧ b = a ∧ ∃ pairs, p.apply a = .error (.conflict pairs)) := by
  unfold canonical at h
  split at h
  · rename_i happly
    cases h
    exact .inl ⟨rfl, happly⟩
  · cases h
  · rename_i pairs happly
    cases h
    exact .inr ⟨rfl, rfl, pairs, happly⟩

/-- Canonical names need no service. -/
theorem notes_canonicalize (p : Policy) (a : Artifact) :
    Notes (canonicalize p a) (canonical p a) [] := by
  unfold canonicalize canonical
  cases p.apply a with
  | ok a => exact notes_pure _
  | error e =>
    cases e with
    | template e => exact notes_throw _
    | conflict pairs => exact (notes_log _ _).then (notes_pure _)

/-- What a compilation reports about itself. -/
def metrics (c : Compiler) (repaired : List Issue) (a : Analysis) (o : RuleOutput)
    (asked : FallbackOutcome) (fragments : List Fragment) (normalized : Bool) : Metrics :=
  { durationMs := c.elapsed, strategy := a.strategy, ruleFragments := countFrom .rule fragments,
    fallbackFragments := countFrom .fallback fragments,
    placeholders := countFrom .placeholder fragments, fallbackCalled := asked.called,
    fallbackFailure := asked.failure, repairAttempted := !repaired.isEmpty,
    repairedCodes := repaired.map Issue.code, normalized, componentErrors := o.errors }

/-- The fragments of the artifact of a document, and the components that nothing rendered. -/
def merged (c : Compiler) (d : Document) (a : Analysis) (bundle : Option Bundle) :
    List Fragment × List String :=
  let o := RuleOutput.generate c.registry a d
  mergeFragments d.components a.strategy o bundle (targets d.components a o)

/-- The artifact of a document before it is given canonical names. -/
def assembled (c : Compiler) (d : Document) (a : Analysis) (asked : FallbackOutcome) :
    Except KindError Artifact :=
  Artifact.assemble d (c.merged d a asked.bundle).1 a.strategy asked.failure.isSome
    (c.merged d a asked.bundle).2 c.registry ((asked.bundle.map Bundle.methods).getD "")
    ((asked.bundle.map Bundle.style).getD "")

/-- The outcome for a document that was read from a checked text and analysed. -/
def build (c : Compiler) (checked : String × List Issue) (d : Document) (a : Analysis) :
    Except CompileError Compilation := do
  let output := RuleOutput.generate c.registry a d
  let asked ← c.answer checked.1 a output (targets d.components a output)
  let assembled ← (c.assembled d a asked).mapError .kind
  let named ← canonical c.policy assembled
  return { artifact := named.1, analysis := a,
           metrics := c.metrics checked.2 a output asked (c.merged d a asked.bundle).1 named.2 }

/-- The outcome of compiling a text. -/
def outcome (c : Compiler) (text : String) : Except CompileError Compilation := do
  let checked ← Repair.verdict text c.mender c.settings
  let document ← (Document.read checked.1).mapError .ofRead
  let analysis ← (Analysis.classify c.registry document).mapError .analysis
  c.build checked document analysis

/-- What a compilation knows before it asks the service. -/
structure Survey where
  checked : String × List Issue
  document : Document
  analysis : Analysis

/-- The part of a compilation in front of the service. -/
def survey (c : Compiler) (text : String) : Except CompileError Survey := do
  let checked ← Repair.verdict text c.mender c.settings
  let document ← (Document.read checked.1).mapError .ofRead
  let analysis ← (Analysis.classify c.registry document).mapError .analysis
  return { checked, document, analysis }

/-- What the rules make of a document. -/
def Survey.output (s : Survey) (c : Compiler) : RuleOutput :=
  RuleOutput.generate c.registry s.analysis s.document

/-- The calls of the service behind a survey. -/
def Survey.calls (s : Survey) (c : Compiler) : List (FallbackRequest × Value) :=
  c.calls s.checked.1 s.analysis (s.output c)
    (targets s.document.components s.analysis (s.output c))

/-- The outcome behind a survey. -/
def Survey.build (s : Survey) (c : Compiler) : Except CompileError Compilation :=
  c.build s.checked s.document s.analysis

/-- Compiling comes to its outcome and notes the calls of both services. -/
theorem notes_compile (c : Compiler) (text : String) :
    Notes (c.compile text) (c.outcome text) ((Repair.calls text c.mender c.settings).map .repair ++
      behind (c.survey text) fun s => (s.calls c).map .generation) := by
  unfold compile outcome survey
  simp only [behind_bind]
  refine (Repair.notes_run _ _ _).bind fun checked => ?_
  obtain ⟨usable, repaired⟩ := checked
  refine (notes_orFail _ _).bind fun document => ?_
  refine (notes_orFail _ _).bind fun analysis => ?_
  refine (notes_events _).then ?_
  refine (notes_askService _ _ _ _ _).finish fun asked => ?_
  -- A failure of the service is noted, and then all goes on as without one.
  obtain ⟨called, failure, bundle⟩ := asked
  cases failure
  case' some => refine (notes_log _ _).then ?_
  all_goals
    refine (notes_orFail _ _).finish fun assembled => ?_
    refine (notes_canonicalize _ _).finish fun named => ?_
    exact (notes_log _ _).then (notes_pure _)

/-- Taking notes does not change the outcome. -/
theorem run_fst (c : Compiler) (text : String) : (c.run text).1 = c.outcome text :=
  (notes_compile c text).yields Journal.empty

/-- A compilation is its survey and what is built on it. -/
theorem run_fst_eq_survey_bind (c : Compiler) (text : String) :
    (c.run text).1 = c.survey text >>= fun s => s.build c := by
  rw [run_fst]
  unfold outcome survey Survey.build
  simp only [bind_assoc, pure_bind]

/-- The calls of a compilation. The service that mends texts is called first. -/
theorem run_calls (c : Compiler) (text : String) :
    (c.run text).2.calls = (Repair.calls text c.mender c.settings).map .repair ++
      (behind (c.survey text) fun s => s.calls c).map .generation := by
  rw [← behind_map]
  exact (notes_compile c text).calls_eq Journal.empty

/-- The calls of the service that mends. -/
theorem run_repairs (c : Compiler) (text : String) :
    (c.run text).2.repairs = Repair.calls text c.mender c.settings := by
  rw [Journal.repairs, run_calls, List.filterMap_append, List.filterMap_map, List.filterMap_map]
  show List.filterMap some _ ++ List.filterMap (fun _ => none) _ = _
  rw [List.filterMap_some, List.filterMap_eq_nil_iff.2 fun _ _ => rfl, List.append_nil]

/-- The calls of the service that renders. -/
theorem run_generations (c : Compiler) (text : String) :
    (c.run text).2.generations = behind (c.survey text) fun s => s.calls c := by
  rw [Journal.generations, run_calls, List.filterMap_append, List.filterMap_map, List.filterMap_map]
  show List.filterMap (fun _ => none) _ ++ List.filterMap some _ = _
  rw [List.filterMap_some, List.filterMap_eq_nil_iff.2 fun _ _ => rfl, List.nil_append]

/-- What a compilation that succeeds goes through on its way. -/
structure Stages (c : Compiler) (text : String) (result : Compilation) where
  checked : String × List Issue
  document : Document
  asked : FallbackOutcome
  assembled : Artifact
  verdict : Repair.verdict text c.mender c.settings = .ok checked
  read : Document.read checked.1 = .ok document
  classify : Analysis.classify c.registry document = .ok result.analysis
  answer : c.answer checked.1 result.analysis
    (RuleOutput.generate c.registry result.analysis document)
    (targets document.components result.analysis
      (RuleOutput.generate c.registry result.analysis document)) = .ok asked
  assemble : c.assembled document result.analysis asked = .ok assembled
  canonical : canonical c.policy assembled = .ok (result.artifact, result.metrics.normalized)
  metrics : result.metrics = c.metrics checked.2 result.analysis
    (RuleOutput.generate c.registry result.analysis document) asked
    (c.merged document result.analysis asked.bundle).1 result.metrics.normalized

/-- A run that gives a result has gone through all stages. -/
theorem exists_stages {c : Compiler} {text : String} {result : Compilation}
    (h : (c.run text).1 = .ok result) : Nonempty (c.Stages text result) := by
  rw [run_fst] at h
  obtain ⟨checked, hverdict, h⟩ := Failure.bind_ok h
  obtain ⟨document, hread, h⟩ := Failure.bind_ok h
  obtain ⟨analysis, hclassify, h⟩ := Failure.bind_ok h
  obtain ⟨asked, hasked, h⟩ := Failure.bind_ok h
  obtain ⟨assembled, hassembled, h⟩ := Failure.bind_ok h
  obtain ⟨named, hnamed, h⟩ := Failure.bind_ok h
  cases h
  exact ⟨{ checked, document, asked, assembled, verdict := hverdict,
           read := Failure.mapError_ok hread, classify := Failure.mapError_ok hclassify,
           answer := hasked, assemble := Failure.mapError_ok hassembled, canonical := hnamed,
           metrics := rfl }⟩

end Compiler

end PageCompiler
