import PageCompiler.Pattern.Registry
import PageCompiler.Proofs.Markup.Fits

/-!
# `PageCompiler.Proofs.Pattern.Fits`: what the rules render

One lemma for each rule says that its markup tree fits: texts are plain, elements and attributes are
known, and nothing of a component comes in but as an escaped text or a key made of ASCII letters.
`rendered_of_mem_standard` puts them together for all standard patterns.
-/

set_option autoImplicit false

namespace PageCompiler.Pattern

open Text Markup

/-! ### Literals -/

/-- The attribute values that do not depend on the component. -/
def fixedValues : List String :=
  ["button", "modal-overlay", "modal-content", "modal-body", "modal-actions", "submit",
   "btn btn-primary", "email-form", "email-title", "email-form-container", "email",
   "email-input", "btn btn-secondary", "wizard", "steps", "index", "step-content",
   "step-actions", "progress-container", "progress-bar", "progress-fill", "progress-text",
   "list-item", "list-empty", "card-description", "card-container", "card-buttons",
   "feedback-area", "scrollable-panel", "scrollable-content", "timestamp", "message-content",
   "tab-button", "tab-content", "tabbed-panel", "tab-buttons", "tab-content-area", "option.id",
   "option-button", "welcome-title", "scenario-title", "previous-answer", "followup-question",
   "breakthrough-examples", "gap.id", "gap-example", "breakthrough-title", "results-insights",
   "insight.id", "insight-item", "results-title", "thrive-title", "thrive-domains",
   "domain.letter", "domain-item", "domain-letter", "domain-info", "welcome-card",
   "welcome-subtitle", "welcome-description", "welcome-meta", "scenario-card",
   "scenario-situation", "scenario-question", "scenario-options", "followup-card",
   "followup-options", "breakthrough-card", "breakthrough-analysis", "breakthrough-revelation",
   "results-card", "results-summary", "results-next-steps", "thrive-card", "thrive-description",
   "thrive-question", "email-description", "email-privacy"]

/-- The texts that stand for properties that are not given. -/
def defaults : List String :=
  ["", "submitForm", "submit_email", "user_email", "you@example.com", "secondary", "primary",
   "steps", "previousStep", "nextStep", "false", "text", "email", "password",
   "conversation_messages", "timestamp", "content", "type", "active_tab", "start",
   "answer_question", "answer_followup_question", "show_results", "show_email_capture",
   "thrive_domains", "select_domain", "id", "feedback_message", "input", "textarea"]

/-- The pieces of code around the properties in attribute values. -/
def codePieces : List String :=
  ["btn btn-", "[", "]", "\x7b active: ", " === index \x7d", ".component", "Math.round((",
   ") / (", ") * 100)", "\x7b width: (", ") + '%' \x7d", "item.", "row.", "message.",
   "'conversation-message ' + ", "(", ")", "!", ".length", "tab_", "'", " \x7d", " === '",
   "(option.id)", "(domain.letter)", "True", "False", "3"]

/-- The code that rules show the value of. -/
def shownCode : List String :=
  ["step.title", "option.text", "gap.scenario", "gap.description", "insight.title",
   "insight.description", "domain.letter", "domain.name", "domain.description"]

/-- All literals are plain and none ends in an equals sign. -/
theorem literal_of_mem : ∀ s ∈ fixedValues ++ defaults ++ codePieces ++ shownCode,
    Plain s.toList ∧ ¬ EndsInEquals s.toList := by
  decide +kernel

theorem quotable_fixed {tidy : Prop} {s : String} (h : s ∈ fixedValues) : Quotable tidy s :=
  .literal (literal_of_mem s (by simp [h]))

theorem quotable_piece {tidy : Prop} {s : String} (h : s ∈ codePieces) : Quotable tidy s :=
  .literal (literal_of_mem s (by simp [h]))

theorem plain_shownCode {s : String} (h : s ∈ shownCode) : Plain (mustache s).toList :=
  plain_mustache (literal_of_mem s (by simp [h])).1

theorem not_endsInEquals_default {s : String} (h : s ∈ defaults) : ¬ EndsInEquals s.toList :=
  (literal_of_mem s (by simp [h])).2

/-! ### Properties of components -/

variable {tidy : Prop} {c : Component} {e : Fields}

theorem quotable_prop (hc : tidy → FieldsTidy c.properties) (key : String) {default : String}
    (hdefault : default ∈ defaults) : Quotable tidy (c.prop key default) :=
  .escaped (fun htidy _ => tidy_of_get? (hc htidy)) (not_endsInEquals_default hdefault)

theorem quotable_field (he : tidy → FieldsTidy e) (key : String) {default : String}
    (hdefault : default ∈ defaults) : Quotable tidy (field e key default) :=
  .escaped (fun htidy _ => tidy_of_get? (he htidy)) (not_endsInEquals_default hdefault)

theorem quotable_eitherField (he : tidy → FieldsTidy e) (first second : String) :
    Quotable tidy (eitherField e first second) :=
  .escaped (fun htidy _ => tidy_of_either (he htidy)) (by decide)

theorem plain_prop (c : Component) (key default : String) : Plain (c.prop key default).toList :=
  plain_escaped _ _

theorem plain_field (e : Fields) (key default : String) : Plain (field e key default).toList :=
  plain_escaped _ _

theorem plain_eitherField (e : Fields) (first second : String) :
    Plain (eitherField e first second).toList :=
  plain_escaped _ _

-- From here on only these lemmas speak about properties, so nothing needs to look inside.
seal Component.prop field eitherField

/-- A scalar that counts as an element is its only field. -/
theorem tidy_element? {v : Value} (hv : v.Tidy) {e : Fields} (he : element? v = some e) :
    FieldsTidy e := by
  unfold element? at he
  split at he
  next fields =>
    cases he
    exact hv
  next =>
    split at he
    · cases he
    · cases he
      exact ⟨hv, trivial⟩

/-- The elements of a tidy property are tidy. -/
theorem tidy_elements {v : Option Value} (hv : tidy → ∀ w, v = some w → w.Tidy) :
    ∀ e ∈ elements v, tidy → FieldsTidy e := by
  intro e he htidy
  have hv := hv htidy
  unfold elements at he
  split at he
  · cases he
  · cases he
  next fields =>
    rw [List.mem_singleton.1 he]
    exact hv _ rfl
  next items =>
    obtain ⟨w, hw, hwe⟩ := List.mem_filterMap.1 he
    exact tidy_element? (tidy_of_mem_items (hv _ rfl) w hw) hwe
  next =>
    split at he
    · cases he
    · rw [List.mem_singleton.1 he]
      exact ⟨hv _ rfl, trivial⟩

theorem tidy_elements_get? {fields : Fields} (h : tidy → FieldsTidy fields) (key : String) :
    ∀ e ∈ elements (Assoc.get? fields key), tidy → FieldsTidy e :=
  tidy_elements fun htidy _ => tidy_of_get? (h htidy)

theorem tidy_mapping {fields : Fields} (h : tidy → FieldsTidy fields) (key : String) :
    tidy → FieldsTidy (mapping (Assoc.get? fields key)) := by
  intro htidy
  unfold mapping
  split
  next inner hinner => exact tidy_of_get? (h htidy) hinner
  next => exact trivial

/-! ### Trees -/

-- Which element, attribute and literal stands where is seen from the tree.
attribute [local simp] elementNames attrNames loopHeads flagNames fixedValues defaults codePieces
  shownCode

/-- Markup blocks that fit. -/
abbrev BlocksOk (tidy : Prop) (bs : List Block) : Prop :=
  BlocksFit (Attr.Fits tidy) bs

theorem fits_leaf {tag content : String} {attrs : List Attr} (htag : tag ∈ elementNames)
    (hattrs : AttrsFit tidy attrs) (hcontent : Plain content.toList) :
    (leaf tag attrs content).Fits (Attr.Fits tidy) :=
  ⟨htag, hattrs, hcontent, trivial⟩

theorem fits_block {tag : String} {attrs : List Attr} {children : List Block}
    (htag : tag ∈ elementNames) (hattrs : AttrsFit tidy attrs)
    (hchildren : BlocksOk tidy children) : (Block.block tag attrs children).Fits (Attr.Fits tidy) :=
  ⟨htag, hattrs, hchildren⟩

theorem blocksOk_map {α : Type} {f : α → Block} {xs : List α}
    (h : ∀ x ∈ xs, (f x).Fits (Attr.Fits tidy)) : BlocksOk tidy (xs.map f) := by
  rw [BlocksOk, blocksFit_iff]
  intro b hb
  obtain ⟨x, hx, rfl⟩ := List.mem_map.1 hb
  exact h x hx

theorem blocksOk_nil : BlocksOk tidy [] :=
  trivial

/-- Markup that may be left out. -/
theorem blocksOk_ite {p : Prop} [Decidable p] {bs cs : List Block} (hbs : BlocksOk tidy bs)
    (hcs : BlocksOk tidy cs) : BlocksOk tidy (if p then bs else cs) := by
  split
  · exact hbs
  · exact hcs

theorem blocksOk_single {b : Block} (h : b.Fits (Attr.Fits tidy)) : BlocksOk tidy [b] :=
  ⟨h, trivial⟩

/-- An attribute with a fixed value. -/
theorem fits_fixed {name value : String} (hname : name ∈ attrNames ∧ name ≠ "v-for")
    (hvalue : value ∈ fixedValues) : (attr name value).Fits tidy :=
  fits_attr hname (quotable_fixed hvalue)

/-- An attribute with a fixed value in front of others. -/
theorem attrsFit_fixed {name value : String} {attrs : List Attr}
    (hname : name ∈ attrNames ∧ name ≠ "v-for") (hvalue : value ∈ fixedValues)
    (h : AttrsFit tidy attrs) : AttrsFit tidy (attr name value :: attrs) :=
  attrsFit_cons.2 ⟨fits_fixed hname hvalue, h⟩

/-- An attribute with the value of some code in front of others. -/
theorem attrsFit_attr {name value : String} {attrs : List Attr}
    (hname : name ∈ attrNames ∧ name ≠ "v-for") (hvalue : Quotable tidy value)
    (h : AttrsFit tidy attrs) : AttrsFit tidy (attr name value :: attrs) :=
  attrsFit_cons.2 ⟨fits_attr hname hvalue, h⟩

/-- An attribute `class` with a fixed value. -/
theorem attrsFit_class {value : String} (h : value ∈ fixedValues) :
    AttrsFit tidy [attr "class" value] :=
  attrsFit_single (fits_fixed (by simp) h)

/-- A box with a class. -/
theorem fits_box {class_ : String} {children : List Block} (hclass : class_ ∈ fixedValues)
    (hchildren : BlocksOk tidy children) :
    (Block.block "div" [attr "class" class_] children).Fits (Attr.Fits tidy) :=
  fits_block (by simp) (attrsFit_class hclass) hchildren

/-! ### Generic elements and branches -/

/-- Headings have a level from one to six. -/
theorem headingLevel_mem (v : Option Value) :
    "h" ++ headingLevel v ∈ elementNames := by
  unfold headingLevel counted?
  split
  next n text heq =>
    split
    next hn =>
      -- The text is that of a number from one to six, or the name of the truth value one.
      split at heq
      next m =>
        cases heq
        have hle : 1 ≤ n ∧ n ≤ 6 := by simpa using hn
        obtain rfl | rfl | rfl | rfl | rfl | rfl :
            n = 1 ∨ n = 2 ∨ n = 3 ∨ n = 4 ∨ n = 5 ∨ n = 6 := by
          omega
        all_goals decide
      next =>
        cases heq
        decide
      next =>
        cases heq
        exact absurd hn (by decide)
      next => cases heq
    · decide
  · decide

theorem fits_genericElement (he : tidy → FieldsTidy e) :
    (genericElement e).Fits (Attr.Fits tidy) := by
  unfold genericElement
  dsimp only
  split
  · exact ⟨headingLevel_mem _, attrsFit_nil, plain_field _ _ _, trivial⟩
  split
  · refine ⟨by simp, ?_, plain_field _ _ _, trivial⟩
    exact attrsFit_fixed (by simp) (by simp) <|
      attrsFit_optional (by simp) (quotable_field he _ (by simp))
  split
  · exact ⟨by simp, attrsFit_nil, plain_eitherField _ _ _, trivial⟩
  · exact ⟨by simp, attrsFit_nil, plain_eitherField _ _ _, trivial⟩

theorem fits_branch (hc : tidy → FieldsTidy c.properties) (key : String) :
    BlocksOk tidy (branch c key) := by
  refine blocksOk_map fun e he => ?_
  exact fits_genericElement (tidy_elements_get? (tidy_mapping hc key) _ e he)

theorem fits_conditionalMarkup (hc : tidy → FieldsTidy c.properties) :
    BlocksOk tidy (conditionalMarkup c) := by
  refine ⟨fits_block (by simp) ?_ (fits_branch hc _), fits_block (by simp) ?_ (fits_branch hc _),
    trivial⟩
  · exact attrsFit_single (fits_attr (by simp) (quotable_prop hc _ (by simp)))
  · exact attrsFit_single (.bare (by simp))

/-! ### Dialogs -/

theorem plain_textOrBinding (c : Component) (key : String) :
    Plain (textOrBinding c key).toList := by
  unfold textOrBinding
  dsimp only
  split
  · exact plain_prop _ _ _
  · exact plain_mustache (plain_prop _ _ _)

theorem fits_dialogButton (he : tidy → FieldsTidy e) :
    (dialogButton e).Fits (Attr.Fits tidy) := by
  refine fits_leaf (by simp) ?_ (plain_field _ _ _)
  have hstyle : Quotable tidy ("btn btn-" ++ field e "style" "secondary") :=
    .append (quotable_piece (by simp)) (quotable_field he _ (by simp))
  exact attrsFit_append.2
    ⟨attrsFit_fixed (by simp) (by simp) <|
      attrsFit_optional (by simp) (quotable_field he _ (by simp)),
      attrsFit_single (fits_attr (by simp) hstyle)⟩

theorem fits_dialogMarkup (hc : tidy → FieldsTidy c.properties) :
    BlocksOk tidy (dialogMarkup c) := by
  have hbuttons : BlocksOk tidy ((elements (Assoc.get? c.properties "actions")).map dialogButton) :=
    blocksOk_map fun e he => fits_dialogButton (tidy_elements_get? hc _ e he)
  have hcontent : AttrsFit tidy [attr "class" "modal-content", flag "@click.stop"] :=
    attrsFit_fixed (by simp) (by simp) <| attrsFit_single (.bare (by simp))
  refine blocksOk_single (fits_block (by simp) ?_ (blocksOk_single
    (fits_block (by simp) hcontent
      ⟨fits_leaf (by simp) attrsFit_nil (plain_textOrBinding _ _),
        fits_leaf (by simp) (attrsFit_class (by simp)) (plain_textOrBinding _ _),
        fits_box (by simp) hbuttons, trivial⟩)))
  exact attrsFit_attr (by simp) (quotable_prop hc _ (by simp)) <|
      attrsFit_fixed (by simp) (by simp) <|
      attrsFit_optional (by simp) (quotable_prop hc _ (by simp))

/-! ### Forms -/

theorem fits_submitButton {text : String} (h : Plain text.toList) :
    (submitButton text).Fits (Attr.Fits tidy) := by
  refine fits_leaf (by simp) ?_ h
  exact attrsFit_fixed (by simp) (by simp) <| attrsFit_class (by simp)

/-- A number of rows is written in digits, or as the truth value one. -/
theorem quotable_rowCount (v : Option Value) : Quotable tidy (rowCount v) := by
  have hint : ∀ n : Int, Quotable tidy (toString n) := by
    intro n
    have hchars : ∀ d ∈ '-' :: Decimal.asciiDigits, d ≠ '<' ∧ d ≠ '>' ∧ d ≠ '"' ∧ d ≠ '=' := by
      decide
    constructor
    · intro d hd
      obtain ⟨h₁, h₂, h₃, -⟩ := hchars d (Decimal.mem_toString hd)
      exact ⟨h₁, h₂, h₃⟩
    · intro _
      refine not_endsInEquals_of_not_mem fun hmem => ?_
      exact (hchars _ (Decimal.mem_toString hmem)).2.2.2 rfl
  unfold rowCount counted?
  split
  next n text heq =>
    split
    · split at heq
      · cases heq
        exact hint _
      · cases heq
        exact quotable_piece (by simp)
      · cases heq
        exact quotable_piece (by simp)
      · cases heq
    · exact quotable_piece (by simp)
  · exact quotable_piece (by simp)

/-- Every control of a form is in form, whatever its fields hold. -/
theorem fits_control (he : tidy → FieldsTidy e) (kind : String) :
    (control e kind).1.Fits (Attr.Fits tidy) := by
  have hmodel : AttrsFit tidy (attr? "v-model" (eitherField e "bind" "name")) :=
    attrsFit_optional (by simp) (quotable_eitherField he _ _)
  have hplaceholder : (attr "placeholder" (eitherField e "placeholder" "label")).Fits tidy :=
    fits_attr (by simp) (quotable_eitherField he _ _)
  have hrequired : ∀ {required : List Attr}, required = [flag "required"] ∨ required = [] →
      AttrsFit tidy required := by
    rintro required (rfl | rfl)
    · exact attrsFit_single (.bare (by simp))
    · exact attrsFit_nil
  unfold control
  dsimp only
  split
  · -- A text area.
    refine fits_leaf (by simp) (attrsFit_append.2 ⟨hmodel, attrsFit_cons.2 ⟨hplaceholder, ?_⟩⟩)
      (by decide)
    exact attrsFit_attr (by simp) (quotable_rowCount _) <| hrequired (by split <;> simp)
  split
  · -- A button.
    have hdisabled : AttrsFit tidy (attr? ":disabled" (field e "disabled_when" "")) :=
      attrsFit_optional (by simp) (quotable_field he _ (by simp))
    refine fits_leaf (by simp) (attrsFit_append.2 ⟨?_, hdisabled⟩) (plain_field _ _ _)
    split
    · exact attrsFit_single (fits_fixed (by simp) (by simp))
    · exact attrsFit_fixed (by simp) (by simp) <|
      attrsFit_single (fits_attr (by simp) (quotable_field he _ (by simp)))
  split
  · -- A choice.
    refine fits_block (by simp)
      (attrsFit_append.2 ⟨hmodel, hrequired (by split <;> simp)⟩) (blocksOk_map ?_)
    intro o ho
    have ho := tidy_elements_get? he _ o ho
    exact fits_leaf (by simp)
      (attrsFit_single (fits_attr (by simp) (quotable_eitherField ho _ _)))
      (plain_eitherField _ _ _)
  · -- An input.
    refine ⟨rfl, attrsFit_append.2 ⟨hmodel, attrsFit_cons.2
      ⟨fits_attr (by simp) (quotable_field he _ ?_),
        attrsFit_cons.2 ⟨hplaceholder, hrequired (by split <;> simp)⟩⟩⟩⟩
    split
    · simp
    · split
      · simp
      · simp

/-- The controls of a form are as tidy as its component. -/
theorem tidy_controlElements (hc : tidy → FieldsTidy c.properties) {kind : String}
    (hkind : kind ∈ defaults) :
    ∀ e ∈ controlElements c kind, tidy → FieldsTidy e := by
  have hget : ∀ (key : String) (v : Value), v.Tidy →
      tidy → ((Assoc.get? c.properties key).getD v).Tidy := by
    intro key v hv htidy
    cases hw : Assoc.get? c.properties key with
    | none => exact hv
    | some w => exact tidy_of_get? (hc htidy) hw
  have hempty : (Value.text "").Tidy := by
    show ¬ EndsInEquals "".toList
    decide
  -- The listed elements come from one of two properties.
  have hlisted : ∀ e ∈ (if (elements (Assoc.get? c.properties "elements")).isEmpty
      then elements (Assoc.get? c.properties "fields")
      else elements (Assoc.get? c.properties "elements")), tidy → FieldsTidy e := by
    intro e he
    split at he
    · exact tidy_elements_get? hc _ e he
    · exact tidy_elements_get? hc _ e he
  intro e he
  unfold controlElements at he
  dsimp only at he
  generalize (if (elements (Assoc.get? c.properties "elements")).isEmpty
      then elements (Assoc.get? c.properties "fields")
      else elements (Assoc.get? c.properties "elements")) = listed at he hlisted
  split at he
  · exact hlisted e he
  · split at he
    · rw [List.mem_singleton.1 he]
      intro htidy
      exact ⟨not_endsInEquals_default hkind, hget "bind" .null trivial htidy,
        hget "placeholder" _ hempty htidy, hget "rows" (.int 3) trivial htidy, trivial⟩
    · cases he

theorem fits_formMarkup (hc : tidy → FieldsTidy c.properties) {kind : String}
    (hkind : kind ∈ defaults) : BlocksOk tidy (formMarkup c kind) := by
  have hcontrols : BlocksOk tidy
      (((controlElements c kind).map fun e => control e kind).map (·.1)) := by
    rw [List.map_map]
    exact blocksOk_map fun e he => fits_control (tidy_controlElements hc hkind e he) kind
  refine blocksOk_single (fits_block (by simp) ?_ (blocksFit_append.2 ⟨hcontrols, ?_⟩))
  · exact attrsFit_single (fits_attr (by simp) (quotable_prop hc _ (by simp)))
  · exact blocksOk_ite blocksOk_nil (blocksOk_single (fits_submitButton (plain_prop _ _ _)))

theorem fits_optionalText (c : Component) (key : String) {tag class_ : String}
    (htag : tag ∈ elementNames) (hclass : class_ ∈ fixedValues) :
    BlocksOk tidy (optionalText c key tag class_) :=
  blocksOk_ite (blocksOk_single (fits_leaf htag (attrsFit_class hclass) (plain_prop _ _ _)))
    blocksOk_nil

theorem fits_emailMarkup (hc : tidy → FieldsTidy c.properties) : BlocksOk tidy (emailMarkup c) := by
  have hinput : (Block.line (.void "input"
      [attr "v-model" (c.prop "bind" "user_email"), attr "type" "email",
        attr "placeholder" (c.prop "placeholder" "you@example.com"), attr "class" "email-input",
        flag "required"])).Fits (Attr.Fits tidy) := by
    refine ⟨rfl, attrsFit_attr (by simp) (quotable_prop hc _ (by simp)) <|
      attrsFit_fixed (by simp) (by simp) <| attrsFit_cons.2 ⟨?_, ?_⟩⟩
    · exact fits_attr (by simp) (quotable_prop hc _ (by simp))
    · exact attrsFit_fixed (by simp) (by simp) <| attrsFit_single (.bare (by simp))
  have hform : AttrsFit tidy
      [attr "@submit.prevent" (c.prop "action" "submit_email"),
        attr "class" "email-form-container"] :=
    attrsFit_attr (by simp) (quotable_prop hc _ (by simp)) <| attrsFit_class (by simp)
  refine blocksOk_single (fits_box (by simp)
    (blocksFit_append.2 ⟨blocksFit_append.2 ⟨⟨?_, fits_optionalText c _ (by simp) (by simp)⟩, ?_⟩,
      fits_optionalText c _ (by simp) (by simp)⟩))
  · exact fits_leaf (by simp) (attrsFit_class (by simp)) (plain_prop _ _ _)
  · exact blocksOk_single (fits_block (by simp) hform
      ⟨hinput, fits_submitButton (plain_prop _ _ _), trivial⟩)

/-! ### Steps -/

theorem fits_stepButton (he : tidy → FieldsTidy e) {action text : String}
    (haction : action ∈ defaults) :
    (stepButton e action text).Fits (Attr.Fits tidy) := by
  refine fits_block (by simp) ?_ (blocksOk_single (plain_field _ _ _))
  exact attrsFit_fixed (by simp) (by simp) <| attrsFit_fixed (by simp) (by simp) <|
      attrsFit_attr (by simp) (quotable_field he _ haction) <|
      attrsFit_single (fits_attr (by simp) (quotable_field he _ (by simp)))

theorem fits_wizardMarkup (hc : tidy → FieldsTidy c.properties) :
    BlocksOk tidy (wizardMarkup c) := by
  have hcurrent : Quotable tidy (c.prop "current_step" "") := quotable_prop hc _ (by simp)
  have hsteps : Quotable tidy (c.prop "steps_bind" "steps") := quotable_prop hc _ (by simp)
  have hstep :
      Quotable tidy (c.prop "steps_bind" "steps" ++ "[" ++ c.prop "current_step" "" ++ "]") :=
    .append (.append (.append hsteps (quotable_piece (by simp))) hcurrent)
      (quotable_piece (by simp))
  have hactive : Quotable tidy ("\x7b active: " ++ c.prop "current_step" "" ++ " === index \x7d") :=
    .append (.append (quotable_piece (by simp)) hcurrent) (quotable_piece (by simp))
  have hnavigation := tidy_mapping hc "navigation"
  refine blocksOk_single (fits_box (by simp) ⟨?_, ?_, ?_, trivial⟩)
  · refine fits_box (by simp) (blocksOk_single
      (fits_block (by simp) ?_ (blocksOk_single (plain_shownCode (by simp)))))
    exact attrsFit_cons.2 ⟨fits_loop (by simp) hsteps,
      attrsFit_fixed (by simp) (by simp) <| attrsFit_single (fits_attr (by simp) hactive)⟩
  · refine fits_box (by simp) (blocksOk_single ⟨rfl, ?_⟩)
    exact attrsFit_attr (by simp) hstep <|
      attrsFit_single (fits_attr (by simp) (.append hstep (quotable_piece (by simp))))
  · exact fits_box (by simp)
      ⟨fits_stepButton (tidy_mapping hnavigation _) (by simp),
        fits_stepButton (tidy_mapping hnavigation _) (by simp), trivial⟩

theorem fits_progressMarkup (hc : tidy → FieldsTidy c.properties) :
    BlocksOk tidy (progressMarkup c) := by
  have hcurrent : Quotable tidy (c.prop "current_step" "") := quotable_prop hc _ (by simp)
  have htotal : Quotable tidy (c.prop "total_steps" "") := quotable_prop hc _ (by simp)
  have hratio : Quotable tidy ("Math.round((" ++ c.prop "current_step" "" ++ ") / (" ++
      c.prop "total_steps" "" ++ ") * 100)") :=
    .append (.append (.append (.append (quotable_piece (by simp)) hcurrent)
      (quotable_piece (by simp))) htotal) (quotable_piece (by simp))
  have hpercent : Quotable tidy (c.prop "percent_bind" "") := quotable_prop hc _ (by simp)
  have hwidth := Quotable.orElse hpercent hratio
  have htext :
      Plain (mustache (c.prop "current_step" "") ++ " of " ++ c.prop "total_steps" "").toList := by
    rw [String.toList_append, String.toList_append, plain_append, plain_append]
    exact ⟨⟨plain_mustache hcurrent.plain, by decide⟩, htotal.plain⟩
  refine blocksOk_single (fits_box (by simp) ⟨?_, ?_, trivial⟩)
  · refine fits_box (by simp)
      (blocksOk_single (fits_leaf (by simp) ?_ (by decide)))
    exact attrsFit_fixed (by simp) (by simp) <| attrsFit_single (fits_attr (by simp)
      (.append (.append (quotable_piece (by simp)) hwidth) (quotable_piece (by simp))))
  · exact fits_leaf (by simp) (attrsFit_class (by simp)) htext

/-! ### Rows of data -/

theorem fits_actionListMarkup (hc : tidy → FieldsTidy c.properties) :
    BlocksOk tidy (actionListMarkup c) := by
  have hsource : Quotable tidy (c.prop "data_source" "") := quotable_prop hc _ (by simp)
  have hkey : Quotable tidy ("item." ++ c.prop "key_field" "") :=
    .append (quotable_piece (by simp)) (quotable_prop hc _ (by simp))
  have hrow : AttrsFit tidy
      [attr "v-for" ("item in " ++ c.prop "data_source" ""),
        attr ":key" ("item." ++ c.prop "key_field" ""), attr "class" "list-item"] :=
    attrsFit_cons.2 ⟨fits_loop (by simp) hsource,
      attrsFit_attr (by simp) hkey <| attrsFit_class (by simp)⟩
  have hlabel : Plain (mustache ("item." ++ c.prop "display_field" "text")).toList := by
    refine plain_mustache ?_
    rw [String.toList_append, plain_append]
    exact ⟨by decide, plain_prop _ _ _⟩
  refine ⟨fits_block (by simp) hrow ⟨fits_leaf (by simp) attrsFit_nil hlabel, blocksOk_map ?_⟩, ?_⟩
  · intro e he
    have he := tidy_elements_get? hc _ e he
    have hclick : AttrsFit tidy (if (field e "action" "").isEmpty then []
        else [attr "@click"
          (field e "action" "" ++ "(" ++ ("item." ++ c.prop "key_field" "") ++ ")")]) := by
      split
      · exact attrsFit_nil
      · exact attrsFit_single (fits_attr (by simp) (.append (.append (.append
          (quotable_field he _ (by simp)) (quotable_piece (by simp))) hkey)
          (quotable_piece (by simp))))
    exact fits_leaf (by simp) (attrsFit_fixed (by simp) (by simp) <|
      attrsFit_fixed (by simp) (by simp) <| hclick) (plain_field _ _ _)
  · refine blocksOk_ite (blocksOk_single (fits_leaf (by simp) ?_ (plain_prop _ _ _))) blocksOk_nil
    exact attrsFit_attr (by simp) (.append (.append (quotable_piece (by simp)) hsource)
      (quotable_piece (by simp))) <| attrsFit_class (by simp)

/-- The field and the label of a column are escaped texts. -/
theorem plain_of_column? {column : Fields} {key label : String}
    (h : column? column = some (key, label)) : Plain key.toList ∧ Plain label.toList := by
  unfold column? at h
  dsimp only at h
  split at h
  · cases h
  · cases h
    exact ⟨plain_eitherField _ _ _, plain_escaped _ _⟩

theorem fits_tableMarkup (hc : tidy → FieldsTidy c.properties) : BlocksOk tidy (tableMarkup c) := by
  have hcolumns : ∀ entry ∈ (elements (Assoc.get? c.properties "columns")).filterMap column?,
      Plain entry.1.toList ∧ Plain entry.2.toList := by
    intro entry hentry
    obtain ⟨column, -, hcolumn⟩ := List.mem_filterMap.1 hentry
    exact plain_of_column? hcolumn
  have hhead : BlocksOk tidy (((elements (Assoc.get? c.properties "columns")).filterMap column?).map
      fun entry => leaf "th" [] entry.2) :=
    blocksOk_map fun entry hentry =>
      fits_leaf (by simp) attrsFit_nil (hcolumns entry hentry).2
  have hbody : BlocksOk tidy (((elements (Assoc.get? c.properties "columns")).filterMap column?).map
      fun entry => leaf "td" [] (mustache ("row." ++ entry.1))) := by
    refine blocksOk_map fun entry hentry =>
      fits_leaf (by simp) attrsFit_nil (plain_mustache ?_)
    rw [String.toList_append, plain_append]
    exact ⟨by decide, (hcolumns entry hentry).1⟩
  have hrow : AttrsFit tidy
      [attr "v-for" ("row in " ++ c.prop "data_source" ""),
        attr ":key" ("row." ++ c.prop "key_field" "id")] :=
    attrsFit_cons.2 ⟨fits_loop (by simp) (quotable_prop hc _ (by simp)),
      attrsFit_single (fits_attr (by simp) (.append (quotable_piece (by simp))
        (quotable_prop hc _ (by simp))))⟩
  refine blocksOk_single (fits_block (by simp) attrsFit_nil ⟨?_, ?_, trivial⟩)
  · exact fits_block (by simp) attrsFit_nil
      (blocksOk_single (fits_block (by simp) attrsFit_nil hhead))
  · exact fits_block (by simp) attrsFit_nil (blocksOk_single (fits_block (by simp) hrow hbody))

/-! ### Panels -/

theorem fits_cardButton (he : tidy → FieldsTidy e) : (cardButton e).Fits (Attr.Fits tidy) := by
  have hstyle : Quotable tidy ("btn btn-" ++ field e "style" "primary") :=
    .append (quotable_piece (by simp)) (quotable_field he _ (by simp))
  refine fits_leaf (by simp) ?_ (plain_field _ _ _)
  exact attrsFit_append.2 ⟨attrsFit_append.2 ⟨attrsFit_fixed (by simp) (by simp) <|
      attrsFit_attr (by simp) hstyle <| attrsFit_optional (by simp) (quotable_field he _ (by simp)),
    attrsFit_optional (by simp) (quotable_eitherField he _ _)⟩,
    attrsFit_optional (by simp) (quotable_field he _ (by simp))⟩

theorem fits_cardContainerMarkup (hc : tidy → FieldsTidy c.properties) :
    BlocksOk tidy (cardContainerMarkup c) := by
  have hfeedback : Quotable tidy (c.prop "feedback_bind" "feedback_message") :=
    quotable_prop hc _ (by simp)
  have hbuttons : BlocksOk tidy ((elements (Assoc.get? c.properties "buttons")).map cardButton) :=
    blocksOk_map fun e he => fits_cardButton (tidy_elements_get? hc _ e he)
  have harea : AttrsFit tidy [attr "class" "feedback-area",
      attr "v-if" (c.prop "feedback_bind" "feedback_message")] :=
    attrsFit_fixed (by simp) (by simp) <| attrsFit_single (fits_attr (by simp) hfeedback)
  refine blocksOk_single (fits_box (by simp) (blocksFit_append.2
    ⟨⟨fits_leaf (by simp) attrsFit_nil (plain_prop _ _ _), ?_⟩, ?_⟩))
  · exact blocksOk_ite (blocksOk_single (fits_leaf (by simp) (attrsFit_class (by simp))
      (plain_prop _ _ _))) blocksOk_nil
  · exact ⟨fits_box (by simp) hbuttons,
      fits_leaf (by simp) harea (plain_mustache hfeedback.plain), trivial⟩

theorem fits_scrollableMarkup (hc : tidy → FieldsTidy c.properties) :
    BlocksOk tidy (scrollableMarkup c) := by
  have hfield : ∀ (key : String) {default : String}, default ∈ defaults →
      Quotable tidy ("message." ++ c.prop key default) :=
    fun key _ hdefault => .append (quotable_piece (by simp)) (quotable_prop hc key hdefault)
  have hmessage : AttrsFit tidy
      [attr "v-for" ("message in " ++ c.prop "data_source" "conversation_messages"),
        attr ":key" ("message." ++ c.prop "key_field" "timestamp"),
        attr ":class"
          ("'conversation-message ' + " ++ ("message." ++ c.prop "type_field" "type"))] :=
    attrsFit_cons.2 ⟨fits_loop (by simp) (quotable_prop hc _ (by simp)),
      attrsFit_attr (by simp) (hfield _ (by simp)) <| attrsFit_single (fits_attr (by simp)
          (.append (quotable_piece (by simp)) (hfield _ (by simp))))⟩
  have hkey : Plain ("message." ++ c.prop "key_field" "timestamp").toList :=
    (hfield _ (by simp)).plain
  have hcontent : Plain ("message." ++ c.prop "content_field" "content").toList :=
    (hfield _ (by simp)).plain
  refine blocksOk_single (fits_box (by simp)
    ⟨fits_leaf (by simp) attrsFit_nil (plain_prop _ _ _), ?_, trivial⟩)
  exact fits_box (by simp) (blocksOk_single (fits_block (by simp)
    hmessage ⟨fits_leaf (by simp) (attrsFit_class (by simp)) (plain_mustache hkey),
      fits_leaf (by simp) (attrsFit_class (by simp)) (plain_mustache hcontent), trivial⟩))

/-- Characters of the key of a tab. -/
def isSlugChar (d : Char) : Bool :=
  ('a' ≤ d && d ≤ 'z') || ('0' ≤ d && d ≤ '9') || d == '_'

theorem isSlugChar_of_mem {s : List Char} (started pending : Bool) :
    ∀ d ∈ slugChars started pending s, isSlugChar d = true := by
  induction s generalizing started pending with
  | nil => simp [slugChars]
  | cons d s ih =>
    rw [slugChars]
    split
    next hd =>
      have hslug : isSlugChar d = true := by
        rw [isSlugChar, hd]
        rfl
      split
      · simpa [hslug, show isSlugChar '_' = true by decide] using ih true false
      · simpa [hslug] using ih true false
    next => exact ih started true

/-- A slug needs no escaping. -/
theorem plain_of_isSlugChar {s : List Char} (h : ∀ d ∈ s, isSlugChar d = true) :
    Plain s ∧ '=' ∉ s := by
  have hbad : ∀ bad ∈ ['<', '>', '"', '='], bad ∉ s := by
    intro bad hbad hmem
    have hfalse : ∀ d ∈ ['<', '>', '"', '='], isSlugChar d = false := by decide
    exact absurd (hfalse bad hbad) (by rw [h bad hmem]; decide)
  refine ⟨fun d hd => ⟨?_, ?_, ?_⟩, hbad _ (by decide)⟩
  · rintro rfl
    exact hbad _ (by decide) hd
  · rintro rfl
    exact hbad _ (by decide) hd
  · rintro rfl
    exact hbad _ (by decide) hd

/-- The key of a tab is made of ASCII letters, digits and underscores. -/
theorem quotable_tabKey (tab : Fields) (position : Nat) : Quotable tidy (tabKey tab position) := by
  rw [tabKey, slug]
  refine .orElse ?_ (.append (quotable_piece (by simp)) ?_)
  · obtain ⟨hplain, hequals⟩ := plain_of_isSlugChar
      (isSlugChar_of_mem (s := lower (asText (tab.either "name" "text") "").toList) false false)
    constructor
    · rwa [String.toList_ofList]
    · intro _
      rw [String.toList_ofList]
      exact not_endsInEquals_of_not_mem hequals
  · have hchars : ∀ d ∈ (toString position).toList, d ∈ Decimal.asciiDigits := by
      intro d hd
      rw [Nat.toString_eq_repr, Nat.toList_repr] at hd
      exact Decimal.mem_asciiDigits_of_mem_toDigits hd
    have hslug : ∀ d ∈ Decimal.asciiDigits, isSlugChar d = true := by decide
    obtain ⟨hplain, hequals⟩ := plain_of_isSlugChar fun d hd => hslug d (hchars d hd)
    exact ⟨hplain, fun _ => not_endsInEquals_of_not_mem hequals⟩

theorem plain_trimmed {s : String} (h : Plain s.toList) : Plain (trimmed s).toList := by
  rw [trimmed, String.toList_ofList]
  intro d hd
  refine h d ?_
  have hd := List.mem_reverse.1 hd
  have hd := List.mem_reverse.1 ((List.dropWhile_sublist _).subset hd)
  exact (List.dropWhile_sublist _).subset hd

/-- A key between single quotes is not blank. -/
theorem quotable_quotedKey (tab : Fields) (position : Nat) :
    Quotable tidy ("'" ++ tabKey tab position ++ "'") ∧
      inked ("'" ++ tabKey tab position ++ "'").toList ≠ [] := by
  constructor
  · exact .append (.append (quotable_piece (by simp)) (quotable_tabKey tab position))
      (quotable_piece (by simp))
  · rw [String.toList_append, inked_append]
    exact List.append_ne_nil_of_right_ne_nil _ (by decide)

theorem fits_tabButton {active : String} (hactive : Quotable tidy active) (tab : Fields)
    (position : Nat) : (tabButton active tab position).Fits (Attr.Fits tidy) := by
  obtain ⟨hkey, hinked⟩ := @quotable_quotedKey tidy tab position
  have hlabel : Plain (tabLabel tab).toList := by
    refine plain_trimmed ?_
    rw [String.toList_append, String.toList_append, plain_append, plain_append]
    exact ⟨⟨plain_field _ _ _, by decide⟩, plain_eitherField _ _ _⟩
  -- The literals end in an equals sign, but the key stands behind them.
  have hleft :
      ∀ s t : String, Plain s.toList → Plain t.toList → Plain (s ++ active ++ t).toList := by
    intro s t hs ht
    rw [String.toList_append, String.toList_append, plain_append, plain_append]
    exact ⟨⟨hs, hactive.plain⟩, ht⟩
  have hclick : Quotable tidy (active ++ " = " ++ ("'" ++ tabKey tab position ++ "'")) := by
    refine .append_inked ?_ hkey hinked
    rw [String.toList_append, plain_append]
    exact ⟨hactive.plain, by decide⟩
  have hclass : Quotable tidy
      ("\x7b active: " ++ active ++ " === " ++ ("'" ++ tabKey tab position ++ "'") ++ " \x7d") :=
    .append (.append_inked (hleft _ _ (by decide) (by decide)) hkey hinked)
      (quotable_piece (by simp))
  refine fits_leaf (by simp) ?_ hlabel
  exact attrsFit_fixed (by simp) (by simp) <| attrsFit_fixed (by simp) (by simp) <|
      attrsFit_attr (by simp) hclass <| attrsFit_single (fits_attr (by simp) hclick)

theorem fits_tabPane {active : String} (hactive : Quotable tidy active) (tab : Fields)
    (position : Nat) : (tabPane active tab position).Fits (Attr.Fits tidy) := by
  have hcontent : Plain (if (field tab "content_bind" "").isEmpty then field tab "content" ""
      else mustache (field tab "content_bind" "")).toList := by
    split
    · exact plain_field _ _ _
    · exact plain_mustache (plain_field _ _ _)
  have hshown : Quotable tidy (active ++ " === '" ++ tabKey tab position ++ "'") :=
    .append (.append (.append hactive (quotable_piece (by simp))) (quotable_tabKey tab position))
      (quotable_piece (by simp))
  refine fits_leaf (by simp) ?_ hcontent
  exact attrsFit_attr (by simp) hshown <| attrsFit_class (by simp)

theorem fits_tabbedMarkup (hc : tidy → FieldsTidy c.properties) :
    BlocksOk tidy (tabbedMarkup c) := by
  have hactive : Quotable tidy (c.prop "bind" "active_tab") := quotable_prop hc _ (by simp)
  refine blocksOk_single (fits_box (by simp)
    (blocksFit_append.2 ⟨?_, ?_, ?_, trivial⟩))
  · exact blocksOk_ite (blocksOk_single (fits_leaf (by simp) attrsFit_nil (plain_prop _ _ _)))
      blocksOk_nil
  · exact fits_box (by simp)
      (blocksOk_map fun entry _ => fits_tabButton hactive entry.1 entry.2)
  · exact fits_box (by simp)
      (blocksOk_map fun entry _ => fits_tabPane hactive entry.1 entry.2)

/-! ### Cards -/

theorem fits_optionalBinding (c : Component) (key : String) {tag class_ : String}
    (htag : tag ∈ elementNames) (hclass : class_ ∈ fixedValues) :
    BlocksOk tidy (optionalBinding c key tag class_) := by
  unfold optionalBinding
  dsimp only
  split
  · exact blocksOk_nil
  · exact blocksOk_single
      (fits_leaf htag (attrsFit_class hclass) (plain_mustache (plain_prop _ _ _)))

theorem fits_optionalParagraph (c : Component) (key : String) {class_ : String}
    (hclass : class_ ∈ fixedValues) :
    BlocksOk tidy (optionalParagraph c key class_) := by
  unfold optionalParagraph
  dsimp only
  split
  · exact blocksOk_nil
  · refine blocksOk_single ⟨by simp, attrsFit_class hclass, ?_, trivial⟩
    exact ⟨by simp, attrsFit_nil, plain_mustache (plain_prop _ _ _), trivial⟩

theorem fits_cardAction {action text : String} (haction : Quotable tidy action)
    (htext : Plain text.toList) : (cardAction action text).Fits (Attr.Fits tidy) := by
  refine fits_leaf (by simp) ?_ htext
  exact attrsFit_fixed (by simp) (by simp) <| attrsFit_attr (by simp) haction <|
      attrsFit_class (by simp)

theorem fits_options {binding action class_ : String} (hbinding : Quotable tidy binding)
    (haction : Quotable tidy action)
    (hclass : class_ ∈ fixedValues) :
    BlocksOk tidy (options binding action class_) := by
  refine blocksOk_ite blocksOk_nil (blocksOk_single (fits_block (by simp)
    (attrsFit_class hclass) (blocksOk_single (fits_block (by simp) ?_
      (blocksOk_single (plain_shownCode (by simp)))))))
  exact attrsFit_cons.2 ⟨fits_loop (by simp) hbinding,
    attrsFit_fixed (by simp) (by simp) <| attrsFit_fixed (by simp) (by simp) <|
      attrsFit_single (fits_attr (by simp) (.append haction (quotable_piece (by simp))))⟩

theorem fits_cardBox {class_ : String} {children : List Block}
    (hclass : class_ ∈ fixedValues)
    (hchildren : BlocksOk tidy children) : BlocksOk tidy (cardBox class_ children) :=
  blocksOk_single (fits_box hclass hchildren)

/-- A text of a component as the heading of a card. -/
theorem fits_heading (c : Component) (key : String) {tag class_ : String}
    (htag : tag ∈ elementNames) (hclass : class_ ∈ fixedValues) :
    (leaf tag [attr "class" class_] (c.prop key "")).Fits (Attr.Fits tidy) :=
  fits_leaf htag (attrsFit_class hclass) (plain_prop _ _ _)

theorem fits_welcomeMarkup (hc : tidy → FieldsTidy c.properties) :
    BlocksOk tidy (welcomeMarkup c) := by
  have haction : Quotable tidy (c.prop "action" "start") := quotable_prop hc _ (by simp)
  refine fits_cardBox (by simp) (blocksFit_append.2 ⟨blocksFit_append.2 ⟨blocksFit_append.2
    ⟨⟨fits_heading c _ (by simp) (by simp), ?_⟩, ?_⟩, ?_⟩, ?_⟩)
  · exact fits_optionalText c _ (by simp) (by simp)
  · exact fits_optionalText c _ (by simp) (by simp)
  · exact fits_optionalText c _ (by simp) (by simp)
  · exact blocksOk_single (fits_cardAction haction (plain_prop _ _ _))

theorem fits_scenarioMarkup (hc : tidy → FieldsTidy c.properties) :
    BlocksOk tidy (scenarioMarkup c) := by
  have hoptions : Quotable tidy (c.prop "options_bind" "") := quotable_prop hc _ (by simp)
  have haction : Quotable tidy (c.prop "action" "answer_question") := quotable_prop hc _ (by simp)
  refine fits_cardBox (by simp) (blocksFit_append.2 ⟨blocksFit_append.2 ⟨⟨?_, ?_⟩, ?_⟩, ?_⟩)
  · exact fits_leaf (by simp) (attrsFit_class (by simp)) (plain_mustache (plain_prop _ _ _))
  · exact fits_optionalBinding c _ (by simp) (by simp)
  · exact fits_optionalBinding c _ (by simp) (by simp)
  · exact fits_options hoptions haction (by simp)

theorem fits_followupMarkup (hc : tidy → FieldsTidy c.properties) :
    BlocksOk tidy (followupMarkup c) := by
  have hoptions : Quotable tidy (c.prop "options_bind" "") := quotable_prop hc _ (by simp)
  have haction : Quotable tidy (c.prop "action" "answer_followup_question") :=
    quotable_prop hc _ (by simp)
  have hprevious : Plain ("You chose: " ++ mustache (c.prop "previous_answer_bind" "")).toList := by
    rw [String.toList_append, plain_append]
    exact ⟨by decide, plain_mustache (plain_prop _ _ _)⟩
  refine fits_cardBox (by simp) (blocksFit_append.2 ⟨?_, ?_, ?_⟩)
  · exact blocksOk_ite blocksOk_nil (blocksOk_single ⟨by simp, attrsFit_class (by simp),
      ⟨by simp, attrsFit_nil, hprevious, trivial⟩, trivial⟩)
  · exact fits_leaf (by simp) (attrsFit_class (by simp)) (plain_mustache (plain_prop _ _ _))
  · exact fits_options hoptions haction (by simp)

theorem fits_breakthroughMarkup (hc : tidy → FieldsTidy c.properties) :
    BlocksOk tidy (breakthroughMarkup c) := by
  have haction : Quotable tidy (c.prop "action" "show_results") := quotable_prop hc _ (by simp)
  have hgap : AttrsFit tidy
      [attr "v-for" ("gap in " ++ c.prop "gap_examples_bind" ""), attr ":key" "gap.id",
        attr "class" "gap-example"] :=
    attrsFit_cons.2 ⟨fits_loop (by simp) (quotable_prop hc _ (by simp)),
      attrsFit_fixed (by simp) (by simp) <| attrsFit_class (by simp)⟩
  have hrun : (Block.run [.element "strong" [] [.text (mustache "gap.scenario")],
      .text (": " ++ mustache "gap.description")]).Fits (Attr.Fits tidy) :=
    ⟨⟨by simp, attrsFit_nil, plain_shownCode (by simp), trivial⟩,
      show Plain (": " ++ mustache "gap.description").toList by decide, trivial⟩
  refine fits_cardBox (by simp) (blocksFit_append.2 ⟨blocksFit_append.2 ⟨blocksFit_append.2
    ⟨⟨fits_heading c _ (by simp) (by simp), ?_⟩, ?_⟩, ?_⟩, ?_⟩)
  · exact fits_optionalParagraph c _ (by simp)
  · exact blocksOk_ite blocksOk_nil (blocksOk_single (fits_box (by simp)
      (blocksOk_single (fits_block (by simp) hgap (blocksOk_single hrun)))))
  · exact fits_optionalText c _ (by simp) (by simp)
  · exact blocksOk_single (fits_cardAction haction (plain_prop _ _ _))

theorem fits_resultsMarkup (hc : tidy → FieldsTidy c.properties) :
    BlocksOk tidy (resultsMarkup c) := by
  have haction : Quotable tidy (c.prop "action" "show_email_capture") :=
    quotable_prop hc _ (by simp)
  have hfirst : Quotable tidy (c.prop "insights_bind" "") := quotable_prop hc _ (by simp)
  have hsecond : Quotable tidy (c.prop "pattern_insights_bind" "") := quotable_prop hc _ (by simp)
  have hinsight : AttrsFit tidy
      [attr "v-for" ("insight in " ++
          orElse (c.prop "insights_bind" "") (c.prop "pattern_insights_bind" "")),
        attr ":key" "insight.id", attr "class" "insight-item"] :=
    attrsFit_cons.2 ⟨fits_loop (by simp) (.orElse hfirst hsecond),
      attrsFit_fixed (by simp) (by simp) <| attrsFit_class (by simp)⟩
  refine fits_cardBox (by simp) (blocksFit_append.2 ⟨blocksFit_append.2 ⟨blocksFit_append.2
    ⟨⟨fits_heading c _ (by simp) (by simp), ?_⟩, ?_⟩, ?_⟩, ?_⟩)
  · exact fits_optionalParagraph c _ (by simp)
  · exact blocksOk_ite blocksOk_nil (blocksOk_single (fits_box (by simp)
      (blocksOk_single (fits_block (by simp) hinsight
        ⟨fits_leaf (by simp) attrsFit_nil (plain_shownCode (by simp)),
          fits_leaf (by simp) attrsFit_nil (plain_shownCode (by simp)), trivial⟩))))
  · exact fits_optionalText c _ (by simp) (by simp)
  · exact blocksOk_single (fits_cardAction haction (plain_prop _ _ _))

theorem fits_thriveMarkup (hc : tidy → FieldsTidy c.properties) :
    BlocksOk tidy (thriveMarkup c) := by
  have haction : Quotable tidy (c.prop "action" "select_domain" ++ "(domain.letter)") :=
    .append (quotable_prop hc _ (by simp)) (quotable_piece (by simp))
  have hdomain : AttrsFit tidy
      [attr "v-for" ("domain in " ++ c.prop "domains_bind" "thrive_domains"),
        attr ":key" "domain.letter", attr "class" "domain-item",
        attr "@click" (c.prop "action" "select_domain" ++ "(domain.letter)")] :=
    attrsFit_cons.2 ⟨fits_loop (by simp) (quotable_prop hc _ (by simp)),
      attrsFit_fixed (by simp) (by simp) <| attrsFit_fixed (by simp) (by simp) <|
      attrsFit_single (fits_attr (by simp) haction)⟩
  have hinfo : (Block.block "div" [attr "class" "domain-info"]
      [leaf "h4" [] (mustache "domain.name"), leaf "p" [] (mustache "domain.description")]).Fits
        (Attr.Fits tidy) :=
    fits_box (by simp)
      ⟨fits_leaf (by simp) attrsFit_nil (plain_shownCode (by simp)),
        fits_leaf (by simp) attrsFit_nil (plain_shownCode (by simp)), trivial⟩
  refine fits_cardBox (by simp) (blocksFit_append.2 ⟨blocksFit_append.2
    ⟨⟨fits_heading c _ (by simp) (by simp), ?_⟩, ?_⟩, ?_⟩)
  · exact fits_optionalText c _ (by simp) (by simp)
  · exact blocksOk_single (fits_box (by simp) (blocksOk_single
      (fits_block (by simp) hdomain
        ⟨fits_leaf (by simp) (attrsFit_class (by simp)) (plain_shownCode (by simp)), hinfo,
          trivial⟩)))
  · exact fits_optionalText c _ (by simp) (by simp)

/-! ### All patterns -/

/-- What a standard pattern renders is the layout of a tree that fits. -/
theorem exists_blocks_of_mem_standard {p : Pattern} (hp : p ∈ Registry.standard.patterns)
    (hc : tidy → FieldsTidy c.properties) :
    ∃ bs, p.render c = layOut bs ∧ BlocksOk tidy bs := by
  have hp : p ∈ Registry.standardPatterns := hp
  simp only [Registry.standardPatterns, List.mem_cons, List.not_mem_nil, or_false] at hp
  rcases hp with rfl | rfl | rfl | rfl | rfl | rfl | rfl | rfl | rfl | rfl | rfl | rfl | rfl | rfl |
    rfl | rfl | rfl | rfl
  · exact ⟨formMarkup c "input", by simp only [formInput], fits_formMarkup hc (by simp)⟩
  · exact ⟨dialogMarkup c, by simp only [modalDialog], fits_dialogMarkup hc⟩
  · exact ⟨tableMarkup c, by simp only [dataTable], fits_tableMarkup hc⟩
  · exact ⟨wizardMarkup c, by simp only [wizardComponent], fits_wizardMarkup hc⟩
  · exact ⟨actionListMarkup c, by simp only [actionList], fits_actionListMarkup hc⟩
  · exact ⟨formMarkup c "textarea", by simp only [textArea], fits_formMarkup hc (by simp)⟩
  · exact ⟨emailMarkup c, by simp only [emailForm], fits_emailMarkup hc⟩
  · exact ⟨conditionalMarkup c, by simp only [conditionalContent], fits_conditionalMarkup hc⟩
  · exact ⟨progressMarkup c, by simp only [progressBar], fits_progressMarkup hc⟩
  · exact ⟨cardContainerMarkup c, by simp only [cardContainer], fits_cardContainerMarkup hc⟩
  · exact ⟨scrollableMarkup c, by simp only [scrollablePanel], fits_scrollableMarkup hc⟩
  · exact ⟨tabbedMarkup c, by simp only [tabbedPanel], fits_tabbedMarkup hc⟩
  · exact ⟨welcomeMarkup c, by simp only [welcomeCard, card], fits_welcomeMarkup hc⟩
  · exact ⟨scenarioMarkup c, by simp only [scenarioCard, card], fits_scenarioMarkup hc⟩
  · exact ⟨followupMarkup c, by simp only [followupCard, card], fits_followupMarkup hc⟩
  · exact ⟨breakthroughMarkup c, by simp only [breakthroughCard, card], fits_breakthroughMarkup hc⟩
  · exact ⟨resultsMarkup c, by simp only [resultsCard, card], fits_resultsMarkup hc⟩
  · exact ⟨thriveMarkup c, by simp only [thriveCard, card], fits_thriveMarkup hc⟩

/-- A standard pattern renders fitting tags that nest. -/
theorem rendered_of_mem_standard {p : Pattern} (hp : p ∈ Registry.standard.patterns)
    (hc : tidy → FieldsTidy c.properties) :
    ∃ tags, Rendered tidy tags (p.render c).toList := by
  obtain ⟨bs, hrender, hbs⟩ := exists_blocks_of_mem_standard hp hc
  rw [hrender]
  exact ⟨blockTags bs, rendered_layOut hbs⟩

end PageCompiler.Pattern
