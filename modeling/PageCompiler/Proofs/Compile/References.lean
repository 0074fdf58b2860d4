import PageCompiler.Proofs.Artifact.Page
import PageCompiler.Proofs.Artifact.Script
import PageCompiler.Proofs.Compile.Containment
import PageCompiler.Proofs.Policy.References

/-!
# `PageCompiler.Proofs.Compile.References`: compiled pages refer to nothing that is not there

Markup and script of a page are put together from one document, and a policy then renames in both,
each in its own way. `references_declared` says that they still fit: whatever the final markup
handles, binds or loops over, the final script declares. The markup is followed to the names before
renaming (`Policy.exists_of_mem_referred`), and the script is followed from there
(`Assembly.script_declares`).
-/

set_option autoImplicit false

namespace PageCompiler

open Text Markup Directive

/-- What rendered markup refers to is the name of a variable. -/
theorem Markup.Rendered.isIdent_of_mem_referred {tidy : Prop} {tags : List Tag} {markup : String}
    (h : Rendered tidy tags markup.toList) {n : String} (hn : n ∈ referred markup) :
    IsIdent n.toList := by
  have hvalue : ∀ {called : Bool} {s : List Char}, valueName? called s = some n.toList →
      IsIdent n.toList := by
    intro called s hs
    obtain ⟨_, _, _, _, _, hname, _⟩ := valueName?_eq_some.1 hs
    exact hname
  obtain ⟨t, ht, ⟨name, v⟩, ha, value, hv, hn⟩ := (mem_referred_iff h.woven h.fits).1 hn
  obtain rfl : v = some value := hv
  rcases (mem_refersTo_iff (Policy.fits_of_mem h.fits ht ha)).1 hn with
    ⟨-, hn⟩ | ⟨-, hn⟩ | ⟨-, _, -, _, -, hn⟩
  · exact hvalue hn
  · exact hvalue hn
  · exact hvalue hn

namespace Compiler

/-- Without a service nothing is given from outside. -/
theorem bundle_of_answer {c : Compiler} (hgenerator : c.generator = none) {text : String}
    {a : Analysis} {o : RuleOutput} {wanted : List String} {asked : FallbackOutcome}
    (h : c.answer text a o wanted = .ok asked) : asked.bundle = none := by
  rw [answer, hgenerator] at h
  split at h
  · cases h
    rfl
  · cases h
    rfl
  next heq _ => cases heq

/-- Without a service each fragment covers a component. -/
theorem covers_of_mem_merged {c : Compiler} (hregistry : c.registry = .standard) {d : Document}
    (hd : d.WellFormed) (a : Analysis) :
    ∀ f ∈ (c.merged d a none).1, ∃ x ∈ d.components, f.Covers x := by
  intro f hf
  have hlabel : ∀ x ∈ d.components, Labelled (RuleOutput.generate c.registry a d) none x :=
    labelled_generate hd (by simp) c.registry a
  rw [merged, mergeFragments_eq hlabel (by simp)] at hf
  have hextras : extras none d.components = [] := rfl
  rw [hextras, List.append_nil] at hf
  obtain ⟨⟨x, f'⟩, hslot, rfl⟩ := List.mem_map.1 hf
  obtain ⟨before, after, hcomponents, hslot⟩ := mem_slots.1 hslot
  have hx : x ∈ d.components := by
    rw [hcomponents]
    simp
  refine ⟨x, hx, ?_⟩
  rcases slot_cases (RuleOutput.generate c.registry a d) none _ _ x with
    ⟨b, hb, -⟩ | ⟨-, hrule⟩ | ⟨-, -, hplaceholder⟩
  · cases hb
  · left
    rw [← hslot, RuleOutput.fragment?_generate hd hx, RuleOutput.rendered?_eq_some_iff] at hrule
    obtain ⟨id, -, hrule⟩ := Option.bind_eq_some_iff.1 hrule
    obtain ⟨p, hp, hrule⟩ := Option.bind_eq_some_iff.1 hrule
    rw [hregistry] at hp
    exact ⟨p, List.mem_of_find?_eq_some hp, Option.some.inj hrule⟩
  · right
    exact hslot.trans hplaceholder

/-- Without a service, and if no text of a component ends in an equals sign, the markup of a page is
rendered markup. -/
theorem Stages.rendered_markup {c : Compiler} {text : String} {result : Compilation}
    (s : c.Stages text result) (hgenerator : c.generator = none)
    (hregistry : c.registry = .standard)
    (htidy : ∀ x ∈ s.document.components, FieldsTidy x.properties) :
    ∃ tags, Rendered True tags s.assembled.markup.toList := by
  have hd := Document.wellFormed_of_read s.read
  have hbundle := bundle_of_answer hgenerator s.answer
  rw [markup_of_assemble s.assemble, hbundle]
  refine Assembly.rendered_markup fun f hf => ?_
  obtain ⟨x, hx, hcovers⟩ := covers_of_mem_merged hregistry hd result.analysis f hf
  refine hcovers.sound (fun _ => not_endsInEquals_of_not_mem fun hmem => ?_) fun _ => htidy x hx
  exact absurd (isNameChar_of_mem_name (hd.component hx).1 hmem) (by decide)

/-- A text without defects is compiled if the types of its declarations are names. -/
theorem exists_stages_of_clean {c : Compiler} {text : String} {d : Document} {declared : Fields}
    (hpolicy : c.policy.TemplatesRead) (hgenerator : ∀ g, c.generator = some g → Steady g)
    (hclean : Issue.detect text = .ok []) (hread : Document.read text = .ok d)
    (hdeclared : Assembly.declaredState d = .ok declared) :
    ∃ result, ∃ s : c.Stages text result, s.document = d := by
  have hverdict : Repair.verdict text c.mender c.settings = .ok (text, []) := by
    rw [Repair.verdict, hclean]
    rfl
  have hclassify := Analysis.classify_eq c.registry (Document.wellFormed_of_read hread)
  generalize Analysis.ofClassifications _ = a at hclassify
  obtain ⟨asked, hasked⟩ := answer_ok hgenerator text a (RuleOutput.generate c.registry a d)
    (targets d.components a (RuleOutput.generate c.registry a d))
  obtain ⟨page, hpage⟩ : ∃ page, c.assembled d a asked = .ok page := by
    unfold assembled Artifact.assemble Assembly.script Assembly.state
    rw [hdeclared]
    exact ⟨_, rfl⟩
  obtain ⟨named, hnamed⟩ := canonical_ok hpolicy page
  let metrics := c.metrics [] a (RuleOutput.generate c.registry a d) asked
    (c.merged d a asked.bundle).1 named.2
  refine ⟨{ artifact := named.1, analysis := a, metrics },
    { checked := (text, []), document := d, asked, assembled := page, verdict := hverdict,
      read := hread, classify := hclassify, answer := hasked, assemble := hpage,
      canonical := hnamed, metrics := rfl }, rfl⟩

/-- The policy renames in markup and script, or it leaves the page as it was put together. -/
theorem Stages.artifact_cases {c : Compiler} {text : String} {result : Compilation}
    (s : c.Stages text result) :
    result.artifact = s.assembled ∨
    ∃ style, result.artifact = { s.assembled with
      markup := String.ofList (c.policy.canonicalMarkup s.assembled.markup.toList)
      script := String.ofList (c.policy.canonicalScript s.assembled.script.toList)
      style } := by
  have hcanonical := s.canonical
  rw [Compiler.canonical] at hcanonical
  split at hcanonical
  next b happly =>
    obtain ⟨rfl, -⟩ := Prod.mk.inj (Except.ok.inj hcanonical)
    obtain ⟨-, style, -, hb⟩ := Policy.apply_eq_ok_iff.1 happly
    exact .inr ⟨_, hb⟩
  next => cases hcanonical
  next =>
    obtain ⟨hb, -⟩ := Prod.mk.inj (Except.ok.inj hcanonical)
    exact .inl hb.symm

end Compiler

open Compiler

/-- A text is compiled without a service, by the standard rules and under the default policy. If no
text of a component ends in an equals sign and all members of the state are variables, then the
final script declares every name that the final markup refers to. -/
theorem references_declared (c : Compiler) (text : String) (result : Compilation)
    (s : c.Stages text result) (hgenerator : c.generator = none)
    (hregistry : c.registry = .standard) (hpolicy : c.policy = .default)
    (htidy : ∀ x ∈ s.document.components, FieldsTidy x.properties)
    (hstate : ∀ state, Assembly.state s.document
        (c.merged s.document result.analysis s.asked.bundle).1 s.assembled.markup = .ok state →
      ∀ name ∈ Assoc.keys state, IsIdent name.toList) :
    ∀ name ∈ referred result.artifact.markup, name ∈ scriptKeys result.artifact.script := by
  obtain ⟨tags, hrendered⟩ := s.rendered_markup hgenerator hregistry htidy
  have hbundle := bundle_of_answer hgenerator s.answer
  -- The script is written from the state of the page.
  have hscript : Assembly.script s.document
      (c.merged s.document result.analysis s.asked.bundle).1 s.assembled.markup "" =
        .ok s.assembled.script := by
    have hscript := script_of_assemble s.assemble
    rw [hbundle] at hscript ⊢
    exact hscript
  obtain ⟨state, hstateOk, -⟩ := Failure.bind_ok hscript
  have hdeclares := Assembly.script_declares hstateOk hscript (hstate state hstateOk)
    fun name hname =>
      hrendered.isIdent_of_mem_referred (List.mem_append_left _ (List.mem_append_left _ hname))
  -- The policy is applied to both sides or to none.
  intro name hname
  rcases s.artifact_cases with hkept | ⟨style, hnamed⟩
  · rw [hkept] at hname ⊢
    exact (hdeclares name hname).1
  · rw [hnamed, hpolicy] at hname ⊢
    obtain ⟨m, hm, rfl⟩ := Policy.exists_of_mem_referred hrendered.woven hrendered.fits hname
    exact (hdeclares m hm).2

mutual

/-- A value is tidy if no text in it ends in an equals sign. -/
theorem Value.tidy_of_anyText {v : Value}
    (h : v.anyText (fun s => decide (EndsInEquals s.toList)) = false) : v.Tidy := by
  cases v with
  | text s => simpa [Value.anyText, Value.Tidy] using h
  | list items => exact itemsTidy_of_anyText h
  | map fields => exact fieldsTidy_of_anyText h
  | _ => trivial

/-- Items are tidy if no text in them ends in an equals sign. -/
theorem itemsTidy_of_anyText {items : List Value}
    (h : Value.anyItemText (fun s => decide (EndsInEquals s.toList)) items = false) :
    ItemsTidy items := by
  cases items with
  | nil => trivial
  | cons v rest =>
    rw [Value.anyItemText, Bool.or_eq_false_iff] at h
    exact ⟨Value.tidy_of_anyText h.1, itemsTidy_of_anyText h.2⟩

/-- Fields are tidy if no text and no name in them ends in an equals sign. -/
theorem fieldsTidy_of_anyText {fields : Fields}
    (h : Value.anyFieldText (fun s => decide (EndsInEquals s.toList)) fields = false) :
    FieldsTidy fields := by
  cases fields with
  | nil => trivial
  | cons entry rest =>
    obtain ⟨key, v⟩ := entry
    rw [Value.anyFieldText, Bool.or_eq_false_iff, Bool.or_eq_false_iff] at h
    exact ⟨Value.tidy_of_anyText h.1.2, fieldsTidy_of_anyText h.2⟩

end

/-- A list over rows. -/
def listPage : String :=
  "## UI Components\nmenu: \x7btype: action_list, data_source: rows, key_field: id\x7d\n"

/-- The markup of a list loops over its rows, and the script declares them. -/
theorem references_declared_list :
    ∃ result, ∃ s : Compiler.standard.Stages listPage result,
      (∀ x ∈ s.document.components, FieldsTidy x.properties) ∧
      "rows" ∈ referred result.artifact.markup ∧ "rows" ∈ scriptKeys result.artifact.script ∧
      ∀ name ∈ referred result.artifact.markup, name ∈ scriptKeys result.artifact.script := by
  obtain ⟨d, hread, hd⟩ := @Failure.exists_ok _ _ (Document.read listPage)
    (fun d => (d.section? "data_model").isNone && d.components.all fun x =>
      !Value.anyFieldText (fun s => decide (EndsInEquals s.toList)) x.properties &&
        Registry.standardPatterns.all fun p => (p.state x).all fun e => decide (IsIdent e.1.toList))
    (by decide +kernel)
  simp only [Bool.and_eq_true, List.all_eq_true, Bool.not_eq_true', decide_eq_true_eq,
    Option.isNone_iff_eq_none] at hd
  obtain ⟨hmodel, hcomponents⟩ := hd
  -- The loop is there before and after renaming.
  have hloops : ((Document.read listPage).toOption.bind fun d =>
      (Analysis.classify .standard d).toOption.map fun a =>
        let page := (Assembly.markup (Compiler.standard.merged d a none).1).toList
        (findAll loop page, findAll loop (Policy.default.canonicalMarkup page))) =
          some (["rows"], ["rows"]) := by decide +kernel
  have hclean : Issue.detect listPage = .ok [] := by decide +kernel
  have hdeclared : Assembly.declaredState d = .ok [] := by
    rw [Assembly.declaredState, hmodel]
  obtain ⟨result, s, rfl⟩ := exists_stages_of_clean (c := .standard) Policy.templatesRead_default
    (by rintro g hg; cases hg) hclean hread hdeclared
  have htidy : ∀ x ∈ s.document.components, FieldsTidy x.properties :=
    fun x hx => fieldsTidy_of_anyText (hcomponents x hx).1
  have hpage : s.assembled.markup =
      Assembly.markup (Compiler.standard.merged s.document result.analysis none).1 := by
    rw [markup_of_assemble s.assemble, bundle_of_answer rfl s.answer]
  have hrows : "rows" ∈ referred result.artifact.markup := by
    have hclassify : Analysis.classify .standard s.document = .ok result.analysis := s.classify
    rw [hread, Except.toOption, Option.bind_some, hclassify, Except.toOption, Option.map_some,
      ← hpage] at hloops
    obtain ⟨hbefore, hafter⟩ := Prod.mk.inj (Option.some.inj hloops)
    refine List.mem_append_right _ ?_
    rcases s.artifact_cases with hkept | ⟨style, hnamed⟩
    · rw [hkept, loops, hbefore]
      exact List.mem_cons_self
    · rw [hnamed, loops, String.toList_ofList, show Compiler.standard.policy = .default from rfl,
        hafter]
      exact List.mem_cons_self
  have hdeclares := references_declared _ _ _ s rfl rfl rfl htidy ?_
  · exact ⟨result, s, htidy, hrows, hdeclares _ hrows, hdeclares⟩
  intro state hstate name hname
  obtain ⟨declared, hdeclared', hmembers⟩ := Assembly.mem_keys_state hstate
  obtain rfl : [] = declared := Except.ok.inj (hdeclared.symm.trans hdeclared')
  obtain ⟨tags, hrendered⟩ := s.rendered_markup rfl rfl htidy
  rcases (hmembers name).1 hname with rfl | hname | hname | hname
  · decide
  · obtain ⟨e, he, rfl⟩ := List.mem_map.1 hname
    obtain ⟨f, hf, he⟩ := List.mem_flatMap.1 he
    rw [bundle_of_answer rfl s.answer] at hf
    obtain ⟨x, hx, hcovers⟩ :=
      covers_of_mem_merged rfl (Document.wellFormed_of_read hread) result.analysis f hf
    rcases hcovers with ⟨p, hp, hf⟩ | rfl
    · rw [RuleOutput.eq_of_generate hf] at he
      exact (hcomponents x hx).2 p hp e he
    · cases he
  · exact hrendered.isIdent_of_mem_referred (List.mem_append_left _ (List.mem_append_right _ hname))
  · exact hrendered.isIdent_of_mem_referred (List.mem_append_right _ hname)

end PageCompiler
