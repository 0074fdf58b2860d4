import PageCompiler.Proofs.Artifact.Enclosure
import PageCompiler.Proofs.Compile.References

/-!
# `PageCompiler.Proofs.Compile.Enclosure`: script and style of a page stay in their elements

A page holds its style and its script in elements of raw text. Such an element holds the whole text
exactly if the text does not hold the end tag (`encloses_iff`). The style of a compiled page never
does. For the script that depends on the document: `page_encloses_iff` says which of its texts can
end the script early.
-/

set_option autoImplicit false

namespace PageCompiler

open Text Markup Directive

/-! ### The page -/

namespace Artifact

/-- The page has an element of raw text that holds a text on lines of its own, and nothing else. -/
def Encloses (a : Artifact) (tag text : String) : Prop :=
  ∃ front rest, a.page.toList = front ++ '<' :: (tag.toList ++ '>' :: rest) ∧
    rawContent? tag rest = some ('\n' :: text.toList ++ "\n  ".toList)

/-- An element of raw text, with its tags on lines of their own, holds what stands between these
lines exactly if that does not hold the end tag. -/
theorem encloses_iff {a : Artifact} {tag text : String} (above below : List String)
    (hpage : a.page = "\n".intercalate
      (above ++ ("  <" ++ tag ++ ">") :: text :: ("  </" ++ tag ++ ">") :: below ++ [""]))
    (hlower : tag.toList.map Char.toLower = tag.toList) (hfeed : '\n' ∉ tag.toList)
    (hspace : ' ' ∉ tag.toList) :
    a.Encloses tag text ↔ holdsEnd tag text.toList = false := by
  have hend : IsEnd tag ('<' :: '/' :: tag.toList) :=
    congrArg (fun z => '<' :: '/' :: z) hlower
  have hfeed : ('\n').toLower ∉ '<' :: '/' :: tag.toList := by
    simpa [show ('\n').toLower = '\n' from rfl] using hfeed
  have hspace : (' ').toLower ∉ '<' :: '/' :: tag.toList := by
    simpa [show (' ').toLower = ' ' from rfl] using hspace
  -- The line feeds keep the text apart from the tags.
  have hlines : holdsEnd tag ('\n' :: text.toList ++ "\n  ".toList) = holdsEnd tag text.toList := by
    have hblank : holdsEnd tag "  ".toList = false := holdsEnd_of_not_mem (by decide)
    have hnil : holdsEnd tag [] = false := holdsEnd_of_not_mem (by simp)
    show holdsEnd tag ([] ++ '\n' :: (text.toList ++ '\n' :: "  ".toList)) = _
    rw [holdsEnd_append_cons hfeed, holdsEnd_append_cons hfeed, hnil, hblank, Bool.false_or,
      Bool.or_false]
  have hlast : '\n' :: text.toList ++ "\n ".toList ++ [' '] =
      '\n' :: text.toList ++ "\n  ".toList := by
    simp
  have hcontent := @rawContent?_eq_some_iff tag ('\n' :: text.toList ++ "\n ".toList)
    ('>' :: '\n' :: feed (below.map String.toList)) ' ' hspace _ hend
  rw [hlast, hlines] at hcontent
  constructor
  · rintro ⟨front, rest, -, hrest⟩
    rw [← hlines]
    exact holdsEnd_of_rawContent? hrest
  · intro hholds
    refine ⟨feed (above.map String.toList) ++ "  ".toList, _, ?_, hcontent.2 hholds⟩
    rw [hpage, Assembly.toList_intercalate_feed]
    simp [feed]

theorem encloses_style_iff (a : Artifact) :
    a.Encloses "style" a.style ↔ holdsEnd "style" a.style.toList = false :=
  encloses_iff [_, _, _, _, _, _] [_, _, _, _, _, _, _, _] rfl (by decide) (by decide) (by decide)

theorem encloses_script_iff (a : Artifact) :
    a.Encloses "script" a.script ↔ holdsEnd "script" a.script.toList = false :=
  encloses_iff [_, _, _, _, _, _, _, _, _, _, _, _] [_, _] rfl (by decide) (by decide) (by decide)

end Artifact

/-! ### Compiled pages -/

namespace Compiler

/-- The style of an artifact is that of its fragments. -/
theorem style_of_assemble {d : Document} {fragments : List Fragment} {strategy : Strategy}
    {degraded : Bool} {unresolved : List String} {r : Registry} {methods style : String}
    {artifact : Artifact}
    (h : Artifact.assemble d fragments strategy degraded unresolved r methods style =
      .ok artifact) : artifact.style = Assembly.style r fragments style := by
  obtain ⟨script, _, h⟩ := Failure.bind_ok h
  cases h
  rfl

/-- An artifact gets canonical names, or is left as it is. -/
theorem canonical_cases {p : Policy} {a b : Artifact} {applied : Bool}
    (h : canonical p a = .ok (b, applied)) : p.apply a = .ok b ∨ b = a := by
  rcases canonical_outcomes h with ⟨-, happly⟩ | ⟨-, hsame, -⟩
  · exact .inl happly
  · exact .inr hsame

/-- Without a service the style of a page holds no tag. -/
theorem Stages.lt_not_mem_style {c : Compiler} {text : String} {result : Compilation}
    (s : c.Stages text result) (hgenerator : c.generator = none)
    (hregistry : c.registry = .standard) (hpolicy : c.policy = .default) :
    '<' ∉ result.artifact.style.toList := by
  have hassembled : '<' ∉ s.assembled.style.toList := by
    rw [style_of_assemble s.assemble, bundle_of_answer hgenerator s.answer, hregistry]
    exact Assembly.lt_not_mem_style _
  have hcanonical := s.canonical
  rw [hpolicy] at hcanonical
  rcases canonical_cases hcanonical with happly | hsame
  · obtain ⟨-, style, hstyle, hb⟩ := Policy.apply_eq_ok_iff.1 happly
    rw [hb, String.toList_ofList]
    exact Policy.lt_not_mem_replaceMarkers (Policy.lt_not_mem_renameSelectors hstyle hassembled)
  · rw [hsame]
    exact hassembled

end Compiler

open Compiler

/-- A text is compiled without a service, by the standard rules and under the default policy. Then
the style is all that its element holds. The script is, unless it holds the end tag. It holds none
if no text of the document does that reaches the script; and if all members of the state are
variables, it holds one as soon as such a text does. -/
theorem page_encloses_iff (c : Compiler) (text : String) (result : Compilation)
    (s : c.Stages text result) (hgenerator : c.generator = none)
    (hregistry : c.registry = .standard) (hpolicy : c.policy = .default) :
    holdsEnd "style" result.artifact.style.toList = false ∧
    result.artifact.Encloses "style" result.artifact.style ∧
    (result.artifact.Encloses "script" result.artifact.script ↔
      holdsEnd "script" result.artifact.script.toList = false) ∧
    ∃ state, Assembly.state s.document
        (c.merged s.document result.analysis s.asked.bundle).1 s.assembled.markup = .ok state ∧
      (holdsEnd "script" result.artifact.script.toList = true →
        Assembly.reaches (fun t => holdsEnd "script" t.toList) s.document state s.assembled.markup =
          true) ∧
      ((∀ name ∈ Assoc.keys state, IsIdent name.toList) →
        Assembly.reaches (fun t => holdsEnd "script" t.toList) s.document state s.assembled.markup =
          true → holdsEnd "script" result.artifact.script.toList = true) := by
  have hstyle : holdsEnd "style" result.artifact.style.toList = false :=
    holdsEnd_of_not_mem (s.lt_not_mem_style hgenerator hregistry hpolicy)
  refine ⟨hstyle, (Artifact.encloses_style_iff _).2 hstyle, Artifact.encloses_script_iff _, ?_⟩
  have hscript := script_of_assemble s.assemble
  have hmethods : (s.asked.bundle.map Bundle.methods).getD "" = "" := by
    rw [bundle_of_answer hgenerator s.answer]
    rfl
  rw [hmethods] at hscript
  obtain ⟨state, hstate, -⟩ := Failure.bind_ok hscript
  refine ⟨state, hstate, ?_⟩
  rw [← Assembly.holdsEnd_script hstate hscript]
  have hcanonical := s.canonical
  rw [hpolicy] at hcanonical
  rcases canonical_cases hcanonical with happly | hsame
  · obtain ⟨-, style, -, hb⟩ := Policy.apply_eq_ok_iff.1 happly
    rw [hb, String.toList_ofList, Policy.canonicalScript]
    refine ⟨fun hholds => ?_, fun hkeys hholds => ?_⟩
    · rw [← Policy.holdsEnd_run]
      exact Policy.holdsEnd_of_withHeader hholds
    · rw [Assembly.holdsEnd_withHeader hstate hscript hkeys]
      exact hholds
  · rw [hsame]
    exact ⟨id, fun _ => id⟩

/-- A title that ends the script. -/
def endingTitlePage : String :=
  "title: </script><b>\n## UI Components\n"

/-- The page of such a title holds its style, but not its script. -/
theorem page_encloses_iff_title :
    ∃ result, ∃ _ : Compiler.standard.Stages endingTitlePage result,
      result.artifact.Encloses "style" result.artifact.style ∧
        ¬ result.artifact.Encloses "script" result.artifact.script := by
  obtain ⟨d, hread, hd⟩ := @Failure.exists_ok _ _ (Document.read endingTitlePage)
    (fun d => (d.section? "data_model").isNone && d.components.isEmpty &&
      holdsEnd "script" d.title.toList) (by decide +kernel)
  simp only [Bool.and_eq_true, List.isEmpty_iff, Option.isNone_iff_eq_none] at hd
  obtain ⟨⟨hmodel, hcomponents⟩, htitle⟩ := hd
  have hclean : Issue.detect endingTitlePage = .ok [] := by decide +kernel
  have hdeclared : Assembly.declaredState d = .ok [] := by
    rw [Assembly.declaredState, hmodel]
  obtain ⟨result, s, rfl⟩ := exists_stages_of_clean (c := .standard) Policy.templatesRead_default
    (by rintro g hg; cases hg) hclean hread hdeclared
  obtain ⟨-, hstyle, hscript, state, hstate, -, hreached⟩ := page_encloses_iff _ _ _ s rfl rfl rfl
  refine ⟨result, s, hstyle, ?_⟩
  obtain ⟨tags, hrendered⟩ := s.rendered_markup rfl rfl (by simp [hcomponents])
  have hkeys : ∀ name ∈ Assoc.keys state, IsIdent name.toList := by
    intro name hname
    obtain ⟨declared, hdeclared', hmembers⟩ := Assembly.mem_keys_state hstate
    obtain rfl : [] = declared := Except.ok.inj (hdeclared.symm.trans hdeclared')
    rcases (hmembers name).1 hname with rfl | hname | hname | hname
    · decide
    · obtain ⟨e, he, rfl⟩ := List.mem_map.1 hname
      obtain ⟨f, hf, -⟩ := List.mem_flatMap.1 he
      rw [bundle_of_answer rfl s.answer] at hf
      obtain ⟨x, hx, -⟩ :=
        covers_of_mem_merged rfl (Document.wellFormed_of_read hread) result.analysis f hf
      rw [hcomponents] at hx
      cases hx
    · exact hrendered.isIdent_of_mem_referred
        (List.mem_append_left _ (List.mem_append_right _ hname))
    · exact hrendered.isIdent_of_mem_referred (List.mem_append_right _ hname)
  rw [hscript, hreached hkeys (Assembly.reaches_of_title hstate htitle)]
  simp

end PageCompiler
