import PageCompiler.Proofs.Compile.Accounting
import PageCompiler.Proofs.Markup.Reflow
import PageCompiler.Proofs.Pattern.Fits

/-!
# `PageCompiler.Proofs.Artifact.Page`: pages are well-formed

The markup of a page is put together from the markup of its fragments. What a standard rule renders
is well-formed, and so is what stands for a component that no rule could render. `markup_nests` says
that a page of such fragments is well-formed too, whatever the components hold.
-/

set_option autoImplicit false

namespace PageCompiler

open Text Markup

variable {tidy : Prop}

namespace Markup

/-- An element around rendered markup, with plain text in front of its tags. -/
theorem Rendered.element (tag : String) (lead trail : List Char) {attrs : List Attr}
    {inner : List Tag} {s : List Char} (htag : tag ∈ elementNames) (hattrs : AttrsFit tidy attrs)
    (hlead : Plain lead) (htrail : Plain trail) (h : Rendered tidy inner s) :
    Rendered tidy (opening tag attrs :: (inner ++ [closing tag]))
      (lead ++ (openTag tag attrs).toList ++ (s ++ (trail ++ (closeTag tag).toList))) where
  woven := by
    have hopen := Woven.plain_append hlead (.single (opening tag attrs))
    have hclose := Woven.plain_append htrail (.single (closing tag))
    rw [write_closing] at hclose
    exact hopen.append (h.woven.append hclose)
  fits := fits_element htag hattrs h.fits
  balanced :=
    balanced_element (isElement_of_mem htag) (fun a ha => (hattrs a ha).readable) h.balanced

theorem rendered_text {s : List Char} (h : Plain s) : Rendered tidy [] s :=
  ⟨.text h, fun _ ht => (List.not_mem_nil ht).elim, balanced_nil⟩

end Markup

namespace Assembly

/-- The attributes of the box around a fragment. -/
def boxAttrs (f : Fragment) : List Attr :=
  [attr "class" ("component " ++ Markup.escape f.component),
   attr "data-component" (Markup.escape f.component)] ++
    if f.source == .fallback then [attr "data-source" "fallback"] else []

/-- A fragment stands in a box, indented. -/
theorem fedLines_fragmentLines (f : Fragment) :
    fedLines [] (fragmentLines f) =
      "\n    ".toList ++ (openTag "div" (boxAttrs f)).toList ++
        (fedLines [] (indentLines "      " f.markup) ++
          ("\n    ".toList ++ (closeTag "div").toList)) := by
  unfold fragmentLines boxAttrs fedLines
  cases f.source == .fallback with
  | false => simp [openTag, closeTag, writeAttrs, Attr.write, attr, String.toList_append]
  | true => simp [openTag, closeTag, writeAttrs, Attr.write, attr, String.toList_append]

/-- The attributes of the box are in form. -/
theorem attrsFit_boxAttrs {f : Fragment} (hname : tidy → ¬ EndsInEquals f.component.toList) :
    AttrsFit tidy (boxAttrs f) := by
  have hescaped : Quotable tidy (Markup.escape f.component) :=
    ⟨plain_escape _, fun htidy => not_endsInEquals_escape (hname htidy)⟩
  have hclass : Quotable tidy ("component " ++ Markup.escape f.component) :=
    .append (.literal (by decide)) hescaped
  refine attrsFit_append.2 ⟨attrsFit_cons.2 ⟨fits_attr (by simp [attrNames]) hclass,
    attrsFit_single (fits_attr (by simp [attrNames]) hescaped)⟩, ?_⟩
  split
  · exact attrsFit_single (fits_attr (by simp [attrNames]) (.literal (by decide)))
  · exact attrsFit_nil

/-- A fragment in its box. -/
theorem rendered_fragmentLines {f : Fragment} (hname : tidy → ¬ EndsInEquals f.component.toList)
    {tags : List Tag} (h : Rendered tidy tags f.markup.toList) :
    ∃ tags', Rendered tidy tags' (fedLines [] (fragmentLines f)) := by
  have hblank : ∀ d ∈ "      ".toList, isBlank d = true := by decide
  obtain ⟨inner, hinner⟩ := h.indentLines hblank
  have hmargin : Plain "\n    ".toList := by decide
  rw [fedLines_fragmentLines]
  exact ⟨_, hinner.element "div" _ _ (by simp [elementNames]) (attrsFit_boxAttrs hname) hmargin
    hmargin⟩

/-- A fragment that gives rendered markup, under a name that does not spoil an attribute. -/
structure Sound (tidy : Prop) (f : Fragment) : Prop where
  name : tidy → ¬ EndsInEquals f.component.toList
  markup : ∃ tags, Rendered tidy tags f.markup.toList

/-- Sound fragments one after another are rendered markup. -/
theorem rendered_fragments {fragments : List Fragment} (h : ∀ f ∈ fragments, Sound tidy f) :
    ∃ tags, Rendered tidy tags (fedLines [] (fragments.flatMap fragmentLines)) := by
  induction fragments with
  | nil => exact ⟨[], rendered_text plain_nil⟩
  | cons f fragments ih =>
    obtain ⟨hf, hrest⟩ := List.forall_mem_cons.1 h
    obtain ⟨tags, htags⟩ := hf.markup
    obtain ⟨first, hfirst⟩ := rendered_fragmentLines hf.name htags
    obtain ⟨rest, hrest⟩ := ih hrest
    rw [List.flatMap_cons, fedLines_append]
    exact ⟨first ++ rest, hfirst.append hrest⟩

/-- The markup of a page: two boxes, the title, and the fragments. -/
theorem fed_markup (fragments : List Fragment) :
    '\n' :: (markup fragments).toList =
      "\n".toList ++ (openTag "div" [attr "id" "app"]).toList ++
        (("\n  ".toList ++ (openTag "div" [attr "class" "app-container"]).toList ++
          (("\n    ".toList ++ (openTag "h1" []).toList ++
            ((mustache "appTitle").toList ++ ([] ++ (closeTag "h1").toList)) ++
              fedLines [] (fragments.flatMap fragmentLines)) ++
            ("\n  ".toList ++ (closeTag "div").toList))) ++
          ("\n".toList ++ (closeTag "div").toList)) := by
  unfold markup
  rw [cons_toList_intercalate (by simp), fedLines_append, fedLines_append]
  simp [fedLines, openTag, closeTag, writeAttrs, Attr.write, attr, mustache]

/-- A page of sound fragments is rendered markup. -/
theorem rendered_markup {fragments : List Fragment} (h : ∀ f ∈ fragments, Sound tidy f) :
    ∃ tags, Rendered tidy tags (markup fragments).toList := by
  obtain ⟨inner, hinner⟩ := rendered_fragments h
  have htitle : Rendered tidy _ ("\n    ".toList ++ (openTag "h1" []).toList ++
      ((mustache "appTitle").toList ++ ([] ++ (closeTag "h1").toList))) :=
    (rendered_text (by decide)).element "h1" _ _ (by simp [elementNames]) attrsFit_nil (by decide)
      plain_nil
  have hid : AttrsFit tidy [attr "id" "app"] :=
    attrsFit_single (fits_attr (by simp [attrNames]) (.literal (by decide)))
  have hclass : AttrsFit tidy [attr "class" "app-container"] :=
    attrsFit_single (fits_attr (by simp [attrNames]) (.literal (by decide)))
  have hinside := (htitle.append hinner).element "div" "\n  ".toList "\n  ".toList
    (by simp [elementNames]) hclass (by decide) (by decide)
  have hpage := hinside.element "div" "\n".toList "\n".toList (by simp [elementNames]) hid
    (by decide) (by decide)
  rw [← fed_markup] at hpage
  exact ⟨_, hpage.woven.of_cons (by decide), hpage.fits, hpage.balanced⟩

/-- What stands for a component without a rule. -/
theorem rendered_placeholder (c : Component) :
    ∃ tags, Rendered tidy tags (placeholder c).markup.toList := by
  have hattrs : AttrsFit tidy [attr "class" "component-pending"] :=
    attrsFit_single (fits_attr (by simp [attrNames]) (.literal (by decide)))
  have htext :
      Plain ("Component type '" ++ Markup.escape c.kind ++ "' not yet implemented").toList := by
    rw [String.toList_append, String.toList_append, plain_append, plain_append]
    exact ⟨⟨by decide, plain_escape _⟩, by decide⟩
  have h := (rendered_text htext).element "p" [] [] (by simp [elementNames]) hattrs plain_nil
    plain_nil
  refine ⟨opening "p" [attr "class" "component-pending"] :: ([] ++ [closing "p"]), ?_⟩
  simpa [placeholder, openTag, closeTag, writeAttrs, Attr.write, attr, String.toList_append] using h

end Assembly

/-- A fragment that a standard rule rendered from a component, or that stands for the component. -/
def Fragment.Covers (f : Fragment) (c : Component) : Prop :=
  (∃ p ∈ Registry.standard.patterns, p.generate c = .ok f) ∨ f = Assembly.placeholder c

/-- A fragment that covers a component is sound. -/
theorem Fragment.Covers.sound {f : Fragment} {c : Component} (h : f.Covers c)
    (hname : tidy → ¬ EndsInEquals c.name.toList) (hc : tidy → FieldsTidy c.properties) :
    Assembly.Sound tidy f := by
  rcases h with ⟨p, hp, hf⟩ | rfl
  · rw [RuleOutput.eq_of_generate hf]
    refine ⟨hname, ?_⟩
    exact Pattern.rendered_of_mem_standard hp hc
  · exact ⟨hname, Assembly.rendered_placeholder c⟩

/-- Whatever a component holds, a standard rule renders well-formed markup from it once the required
properties are given. A page that is put together from such fragments, and from fragments that stand
for components without a rule, is well-formed. -/
theorem markup_nests :
    (∀ p ∈ Registry.standard.patterns, ∀ c : Component, p.missing c = [] →
      ∃ f, p.generate c = .ok f ∧ wellFormed f.markup.toList = true) ∧
    (∀ fragments : List Fragment, (∀ f ∈ fragments, ∃ c : Component, f.Covers c) →
      wellFormed (Assembly.markup fragments).toList = true ∧
      ∀ (d : Document) (strategy : Strategy) (degraded : Bool) (unresolved : List String)
        (methods style : String) (a : Artifact),
        Artifact.assemble d fragments strategy degraded unresolved .standard methods style = .ok a →
          wellFormed a.markup.toList = true) := by
  constructor
  · intro p hp c hmissing
    have hgenerate : p.generate c = .ok
        { component := c.name, markup := p.render c, source := .rule, patternId := some p.id,
          state := p.state c } := by
      rw [Pattern.generate, hmissing, refusal_of_mem_standard hp c]
    -- Nothing is asked of the component, so the condition on its texts is never met.
    obtain ⟨tags, htags⟩ := @Pattern.rendered_of_mem_standard False c p hp False.elim
    exact ⟨_, hgenerate, htags.wellFormed⟩
  · intro fragments hfragments
    have hsound : ∀ f ∈ fragments, Assembly.Sound False f := by
      intro f hf
      obtain ⟨c, hc⟩ := hfragments f hf
      exact hc.sound False.elim False.elim
    obtain ⟨tags, htags⟩ := Assembly.rendered_markup hsound
    refine ⟨htags.wellFormed, ?_⟩
    intro d strategy degraded unresolved methods style a ha
    rw [Compiler.markup_of_assemble ha]
    exact htags.wellFormed

/-- A dialog whose texts look like markup. -/
def hostileDialog : Component :=
  { name := "a", patternName := some "modal_dialog",
    properties := [("visible_when", .text "\"><b>"), ("title", .text "</h3>\n<p class=\"")],
    rawText := "", inSection := "ui", line := 1 }

/-- A dialog whose texts look like markup, and a component without a rule, as one page. The texts
stand in the markup with their marks escaped. -/
theorem markup_nests_hostile :
    Pattern.modalDialog ∈ Registry.standard.patterns ∧
    Pattern.modalDialog.missing hostileDialog = [] ∧
    ∃ f, Pattern.modalDialog.generate hostileDialog = .ok f ∧
      f.markup =
        "<div v-if=\"&quot;&gt;&lt;b&gt;\" class=\"modal-overlay\">\n" ++
        "  <div class=\"modal-content\" @click.stop>\n" ++
        "    <h3>&lt;/h3&gt;\n&lt;p class=&quot;</h3>\n" ++
        "    <div class=\"modal-body\"></div>\n" ++
        "    <div class=\"modal-actions\">\n    </div>\n  </div>\n</div>" ∧
      wellFormed f.markup.toList = true ∧
      f.Covers hostileDialog ∧ (Assembly.placeholder hostileDialog).Covers hostileDialog ∧
      wellFormed (Assembly.markup [f, Assembly.placeholder hostileDialog]).toList = true := by
  have hmem : Pattern.modalDialog ∈ Registry.standard.patterns :=
    List.mem_cons_of_mem _ List.mem_cons_self
  have hmissing : Pattern.modalDialog.missing hostileDialog = [] := by decide +kernel
  obtain ⟨f, hf, hwellFormed⟩ := markup_nests.1 _ hmem _ hmissing
  have hcovers : f.Covers hostileDialog := .inl ⟨_, hmem, hf⟩
  have hstands : (Assembly.placeholder hostileDialog).Covers hostileDialog := .inr rfl
  have hmarkup : f.markup = Pattern.modalDialog.render hostileDialog := by
    rw [RuleOutput.eq_of_generate hf]
  refine ⟨hmem, hmissing, f, hf, hmarkup.trans (by decide +kernel), hwellFormed, hcovers, hstands,
    (markup_nests.2 _ ?_).1⟩
  intro g hg
  simp only [List.mem_cons, List.not_mem_nil, or_false] at hg
  rcases hg with rfl | rfl
  · exact ⟨_, hcovers⟩
  · exact ⟨_, hstands⟩

end PageCompiler
