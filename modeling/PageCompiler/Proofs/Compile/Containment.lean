import PageCompiler.Proofs.Analysis
import PageCompiler.Proofs.Compile.Outcome

/-!
# `PageCompiler.Proofs.Compile.Containment`: how a compilation can fail

Each stage of a compilation has failures of its own. Behind the check of the text most of them
cannot occur: a text without defects can be read (`read_of_detect_nil`), a document that was read
can be analysed (`Analysis.classify_eq`), and the targets of the default policy are templates
(`Policy.templatesRead_default`). The failures of services and of rules are taken as answers. What
is left is a text that is refused, and a declared type that is no name. `Repair.verdict_cases` gives
the exact condition under which a text is refused.
-/

set_option autoImplicit false

namespace PageCompiler

/-! ### The check of the text -/

/-- A text without defects can be read. -/
theorem Issue.read_of_detect_nil {text : String} (h : Issue.detect text = .ok []) :
    ∃ d, Document.read text = .ok d := by
  unfold detect at h
  split at h
  · cases h
  · simp only at h
    cases hblocks : malformedBlocks text (Text.lines text.toList) with
    | error e =>
      rw [hblocks] at h
      cases h
    | ok malformed =>
      rw [hblocks] at h
      have hnil : malformed = [] :=
        (List.append_eq_nil_iff.1 (List.append_eq_nil_iff.1 (Except.ok.inj h)).1).2
      subst hnil
      unfold malformedBlocks at hblocks
      split at hblocks
      · rename_i d hread
        exact ⟨d, hread⟩
      · cases hblocks
      · cases hblocks

/-- A service that answers every request, if only with a failure. -/
def Steady {ρ : Type} (service : ρ → Value → Reply) : Prop :=
  ∀ r timeout message, service r timeout ≠ .crashed message

namespace Repair

/-- The service answers with a text that has no defect left. -/
def Mends (text : String) (issues : List Issue) (settings : CompilerSettings)
    (mender : Option Mender) : Prop :=
  ∃ m reply, mender = some m ∧
    m (request text issues settings) settings.repairTimeout = .text reply ∧
    Issue.detect (stripFences reply) = .ok []

variable {text : String} {issues : List Issue} {settings : CompilerSettings}
  {mender : Option Mender}

/-- The outcomes of the attempt to mend a text, where the service answers and the defects of its
reply can be listed. -/
theorem attempt_cases (hmender : ∀ m, mender = some m → Steady m)
    (hreply : ∀ m reply, mender = some m →
      m (request text issues settings) settings.repairTimeout = .text reply →
        ∃ remaining, Issue.detect (stripFences reply) = .ok remaining) :
    (Mends text issues settings mender ∧ ∃ usable,
      attempt text issues settings mender = .ok (usable, issues) ∧ Issue.detect usable = .ok []) ∨
    (¬Mends text issues settings mender ∧ ∃ summary remaining,
      attempt text issues settings mender = .error (.unrepairable summary issues remaining)) := by
  cases mender with
  | none =>
    refine .inr ⟨?_, _, _, rfl⟩
    rintro ⟨m, _, hm, _⟩
    cases hm
  | some m =>
    have hmends : ∀ {r : Reply}, m (request text issues settings) settings.repairTimeout = r →
        Mends text issues settings (some m) →
          ∃ reply, r = .text reply ∧ Issue.detect (stripFences reply) = .ok [] := by
      rintro r hr ⟨m', reply, hm, htext, hnone⟩
      cases hm
      exact ⟨reply, hr ▸ htext, hnone⟩
    unfold attempt
    simp only
    cases hcall : m (request text issues settings) settings.repairTimeout with
    | crashed message => exact absurd hcall (hmender m rfl _ _ _)
    | failed e =>
      refine .inr ⟨fun h => ?_, _, _, rfl⟩
      obtain ⟨_, htext, _⟩ := hmends hcall h
      cases htext
    | text reply =>
      obtain ⟨remaining, hremaining⟩ := hreply m reply rfl hcall
      simp only [hremaining]
      cases remaining with
      | nil => exact .inl ⟨⟨m, reply, rfl, hcall, hremaining⟩, _, rfl, hremaining⟩
      | cons i rest =>
        refine .inr ⟨fun h => ?_, _, _, rfl⟩
        obtain ⟨_, htext, hnone⟩ := hmends hcall h
        cases htext
        rw [hremaining] at hnone
        cases hnone

/-- The outcomes of the check. A text without defects or with mended ones is handed on, and any
other is refused. -/
theorem verdict_cases (hdetect : Issue.detect text = .ok issues)
    (hmender : ∀ m, mender = some m → Steady m)
    (hreply : ∀ m reply, mender = some m →
      m (request text issues settings) settings.repairTimeout = .text reply →
        ∃ remaining, Issue.detect (stripFences reply) = .ok remaining) :
    ((issues = [] ∨ (∀ i ∈ issues, i.repairable = true) ∧ Mends text issues settings mender) ∧
      ∃ checked, verdict text mender settings = .ok checked ∧ Issue.detect checked.1 = .ok []) ∨
    ((issues ≠ [] ∧
        ¬((∀ i ∈ issues, i.repairable = true) ∧ Mends text issues settings mender)) ∧
      ((∃ summary, verdict text mender settings = .error (.rejected summary issues)) ∨
        ∃ summary remaining,
          verdict text mender settings = .error (.unrepairable summary issues remaining))) := by
  unfold verdict
  simp only [hdetect]
  cases issues with
  | nil => exact .inl ⟨.inl rfl, (text, []), rfl, hdetect⟩
  | cons i rest =>
    have hne : i :: rest ≠ [] := List.cons_ne_nil i rest
    cases hany : (i :: rest).any fun i => !i.repairable with
    | true =>
      obtain ⟨j, hj, hstuck⟩ := List.any_eq_true.1 hany
      refine .inr ⟨⟨hne, fun h => ?_⟩, .inl ⟨_, rfl⟩⟩
      rw [h.1 j hj] at hstuck
      cases hstuck
    | false =>
      have hall : ∀ j ∈ i :: rest, j.repairable = true := by
        intro j hj
        simpa using List.any_eq_false.1 hany j hj
      rcases attempt_cases hmender hreply with
        ⟨hmends, usable, hok, hclean⟩ | ⟨hmends, summary, remaining, herror⟩
      · exact .inl ⟨.inr ⟨hall, hmends⟩, (usable, i :: rest), hok, hclean⟩
      · exact .inr ⟨⟨hne, fun h => hmends h.2⟩, .inr ⟨summary, remaining, herror⟩⟩

end Repair

/-! ### Behind the check -/

/-- A service that answers stops no compilation, whatever it answers. -/
theorem Compiler.answer_ok {c : Compiler} (h : ∀ g, c.generator = some g → Steady g)
    (text : String) (a : Analysis) (o : RuleOutput) (wanted : List String) :
    ∃ asked, c.answer text a o wanted = .ok asked := by
  have hheard : ∀ g, c.generator = some g →
      ∀ r timeout, ∃ asked, heard (g r timeout) = .ok asked := by
    intro g hg r timeout
    cases hcall : g r timeout with
    | crashed message => exact absurd hcall (h g hg _ _ _)
    | failed e => exact ⟨_, rfl⟩
    | text reply =>
      simp only [heard]
      cases Bundle.read reply with
      | error e => exact ⟨_, rfl⟩
      | ok b => exact ⟨_, rfl⟩
  unfold answer
  split
  · exact ⟨_, rfl⟩
  · exact ⟨_, rfl⟩
  · rename_i g hg _
    exact hheard g hg _ _

namespace Policy

/-- The templates by which aliases are replaced in the style can all be read. -/
def TemplatesRead (p : Policy) : Prop :=
  ∀ entry ∈ p.classAliases,
    ∃ parts, Template.parse ('.' :: ['.'].intercalate (Text.fields entry.2.toList)) = .ok parts

/-- The templates of the default policy can be read. -/
theorem templatesRead_default : Policy.default.TemplatesRead := by
  have hread : ∀ entry ∈ Policy.default.classAliases,
      (Template.parse ('.' :: ['.'].intercalate (Text.fields entry.2.toList))).isOk = true := by
    decide
  intro entry hentry
  cases hparse : Template.parse ('.' :: ['.'].intercalate (Text.fields entry.2.toList)) with
  | ok parts => exact ⟨parts, rfl⟩
  | error e =>
    have h := hread entry hentry
    rw [hparse] at h
    cases h

/-- Where all templates can be read, selectors can be renamed. -/
theorem renameSelectors_ok {p : Policy} (h : p.TemplatesRead) (style : List Char) :
    ∃ renamed, p.renameSelectors style = .ok renamed := by
  unfold TemplatesRead at h
  unfold renameSelectors
  generalize p.classAliases = aliases at h ⊢
  induction aliases generalizing style with
  | nil => exact ⟨style, rfl⟩
  | cons entry rest ih =>
    obtain ⟨hentry, hrest⟩ := List.forall_mem_cons.1 h
    obtain ⟨parts, hparts⟩ := hentry
    obtain ⟨old, target⟩ := entry
    have hfirst : renameSelector style old target = .ok (Text.replaceAll (selector old)
        (fun _ => Template.fill ('.' :: old.toList) parts) style) := by
      simp only [renameSelector, hparts]
      rfl
    rw [List.foldlM_cons]
    show ∃ renamed, (renameSelector style old target).bind _ = .ok renamed
    rw [hfirst]
    exact ih _ hrest

/-- A policy whose templates can be read is applied, unless two members would be merged. -/
theorem apply_of_templatesRead {p : Policy} (h : p.TemplatesRead) (a : Artifact) :
    (∃ b, p.apply a = .ok b) ∨ ∃ pairs, p.apply a = .error (.conflict pairs) := by
  unfold apply
  split
  · obtain ⟨style, hstyle⟩ := renameSelectors_ok h a.style.toList
    rw [hstyle]
    exact .inl ⟨_, rfl⟩
  · exact .inr ⟨_, rfl⟩

end Policy

/-- A merge that is refused leaves the artifact as it is. -/
theorem Compiler.canonical_ok {p : Policy} (h : p.TemplatesRead) (a : Artifact) :
    ∃ named, canonical p a = .ok named := by
  unfold canonical
  rcases Policy.apply_of_templatesRead h a with ⟨b, hb⟩ | ⟨pairs, hpairs⟩
  · rw [hb]
    exact ⟨_, rfl⟩
  · rw [hpairs]
    exact ⟨_, rfl⟩

/-- Only the declared types can stop the compilation of a document. -/
theorem Compiler.build_cases {c : Compiler} (hpolicy : c.policy.TemplatesRead)
    (hgenerator : ∀ g, c.generator = some g → Steady g) (checked : String × List Issue)
    (d : Document) (a : Analysis) :
    (∃ r, c.build checked d a = .ok r) ∨ ∃ k, c.build checked d a = .error (.kind k) := by
  obtain ⟨asked, hasked⟩ := answer_ok hgenerator checked.1 a (RuleOutput.generate c.registry a d)
    (targets d.components a (RuleOutput.generate c.registry a d))
  unfold build
  simp only [hasked]
  show (∃ r, ((c.assembled d a asked).mapError CompileError.kind).bind _ = .ok r) ∨
    ∃ k, ((c.assembled d a asked).mapError CompileError.kind).bind _ = .error (.kind k)
  cases c.assembled d a asked with
  | error k => exact .inr ⟨k, rfl⟩
  | ok assembled =>
    obtain ⟨named, hnamed⟩ := canonical_ok hpolicy assembled
    refine .inl ?_
    show ∃ r, (canonical c.policy assembled).bind _ = .ok r
    rw [hnamed]
    exact ⟨_, rfl⟩

/-- Behind a check that was passed, only the declared types can stop a compilation. -/
theorem Compiler.outcome_of_checked {c : Compiler} {text : String} {checked : String × List Issue}
    (hpolicy : c.policy.TemplatesRead) (hgenerator : ∀ g, c.generator = some g → Steady g)
    (hverdict : Repair.verdict text c.mender c.settings = .ok checked)
    (hclean : Issue.detect checked.1 = .ok []) :
    (∃ r, c.outcome text = .ok r) ∨ ∃ k, c.outcome text = .error (.kind k) := by
  obtain ⟨d, hread⟩ := Issue.read_of_detect_nil hclean
  have hclassify := Analysis.classify_eq c.registry (Document.wellFormed_of_read hread)
  have hbuild : c.outcome text = c.build checked d
      (Analysis.ofClassifications (d.components.map (Analysis.classification c.registry))) := by
    rw [outcome, hverdict]
    show ((Document.read checked.1).mapError CompileError.ofRead).bind _ = _
    rw [hread]
    show ((Analysis.classify c.registry d).mapError CompileError.analysis).bind _ = _
    rw [hclassify]
    rfl
  rw [hbuild]
  exact build_cases hpolicy hgenerator checked d _

/-- A text that is refused is not compiled. -/
theorem Compiler.outcome_of_refused {c : Compiler} {text : String} {e : CompileError}
    (h : Repair.verdict text c.mender c.settings = .error e) : c.outcome text = .error e := by
  rw [outcome, h]
  rfl

/-! ### The whole -/

/-- The names of failures that stay inside of a compilation. -/
def containedTypes : List String :=
  ["ParseError", "AnalysisError", "GenerationError", "ExtractionError", "ComponentGenerationError",
   "ConsistencyError"]

/-- The names of the failure of a text that is refused. -/
def refusalTypes : List String :=
  ["DocumentValidationError", "UnrepairableDocumentError"]

/-- With the default policy and services that answer, a compilation fails only for a text that is
refused or a declared type that is no name. A text is refused exactly when it has defects and is not
mended. -/
theorem run_contains_errors (c : Compiler) (text : String) (issues : List Issue)
    (hpolicy : c.policy = .default) (hmender : ∀ m, c.mender = some m → Steady m)
    (hgenerator : ∀ g, c.generator = some g → Steady g)
    (hdetect : Issue.detect text = .ok issues)
    (hreply : ∀ m reply, c.mender = some m →
      m (Repair.request text issues c.settings) c.settings.repairTimeout = .text reply →
        ∃ remaining, Issue.detect (Repair.stripFences reply) = .ok remaining) :
    (∀ e, (c.run text).1 = .error e → e.typeName ∉ containedTypes ∧
      (e.typeName ∈ refusalTypes ∨ ∃ k, e = .kind k)) ∧
    ((∃ e, (c.run text).1 = .error e ∧ e.typeName ∈ refusalTypes) ↔
      issues ≠ [] ∧ ¬((∀ i ∈ issues, i.repairable = true) ∧
        Repair.Mends text issues c.settings c.mender)) := by
  have htemplates : c.policy.TemplatesRead := hpolicy ▸ Policy.templatesRead_default
  rw [c.run_fst text]
  rcases Repair.verdict_cases hdetect hmender hreply with
    ⟨hmended, checked, hverdict, hclean⟩ | ⟨hrefused, hverdict⟩
  · -- A text that is handed on can only fail for a declared type.
    have hnot : ¬(issues ≠ [] ∧ ¬((∀ i ∈ issues, i.repairable = true) ∧
        Repair.Mends text issues c.settings c.mender)) :=
      fun h => hmended.elim h.1 h.2
    rcases Compiler.outcome_of_checked htemplates hgenerator hverdict hclean with
      ⟨r, hok⟩ | ⟨k, herror⟩
    · rw [hok]
      refine ⟨?_, iff_of_false ?_ hnot⟩
      · intro e he
        cases he
      · rintro ⟨e, he, _⟩
        cases he
    · rw [herror]
      refine ⟨?_, iff_of_false ?_ hnot⟩
      · intro e he
        cases he
        exact ⟨show "TypeError" ∉ containedTypes by decide, .inr ⟨k, rfl⟩⟩
      · rintro ⟨e, he, htype⟩
        cases he
        exact absurd htype (show "TypeError" ∉ refusalTypes by decide)
  · -- A text that is refused fails at once.
    have herror : ∃ e, c.outcome text = .error e ∧ e.typeName ∉ containedTypes ∧
        e.typeName ∈ refusalTypes := by
      rcases hverdict with ⟨summary, hverdict⟩ | ⟨summary, remaining, hverdict⟩
      · exact ⟨.rejected summary issues, Compiler.outcome_of_refused hverdict,
          show "DocumentValidationError" ∉ containedTypes by decide,
          show "DocumentValidationError" ∈ refusalTypes by decide⟩
      · exact ⟨.unrepairable summary issues remaining, Compiler.outcome_of_refused hverdict,
          show "UnrepairableDocumentError" ∉ containedTypes by decide,
          show "UnrepairableDocumentError" ∈ refusalTypes by decide⟩
    obtain ⟨e, herror, hcontained, hrefusal⟩ := herror
    rw [herror]
    refine ⟨?_, iff_of_true ⟨e, rfl, hrefusal⟩ hrefused⟩
    rintro e' he
    cases he
    exact ⟨hcontained, .inl hrefusal⟩

/-- A text without its section, mended in a code fence, and a service that fails. -/
theorem run_contains_errors_mended :
    Issue.detect "note" = .ok [.missingSection "ui_components"] ∧
    ¬∃ e, (Compiler.run { Compiler.standard with
        mender := some fun _ _ => .text "```apml\n## UI Components\n```"
        generator := some fun _ _ => .failed { reason := "timeout", detail := none } } "note").1 =
      .error e ∧ e.typeName ∈ refusalTypes := by
  have hdetect : Issue.detect "note" = .ok [.missingSection "ui_components"] := by rfl
  have hclean : Issue.detect (Repair.stripFences "```apml\n## UI Components\n```") = .ok [] := by
    rfl
  refine ⟨hdetect, ?_⟩
  rw [(run_contains_errors _ "note" _ rfl (by rintro m hm; cases hm; intro _ _ _ h; cases h)
    (by rintro g hg; cases hg; intro _ _ _ h; cases h) hdetect
    (by rintro m reply hm htext; cases hm; cases htext; exact ⟨[], hclean⟩)).2]
  exact fun h => h.2 ⟨by simp [Issue.repairable], _, _, rfl, rfl, hclean⟩

end PageCompiler
