import PageCompiler.Markup.Css
import PageCompiler.Pattern.Element

/-!
# `PageCompiler.Pattern.Form`: forms

Three patterns: a form of controls, a form around a text area, and a form that asks for an
address. A form always has a submit button: if no control is one, a button is added at the end.
-/

set_option autoImplicit false

namespace PageCompiler.Pattern

open Markup

/-- The style of forms and their controls. -/
def formStyle : String :=
  styleSheet
    [⟨"form", [("display", "flex"), ("flex-direction", "column"), ("gap", "15px")]⟩,
     ⟨"textarea, input, select",
      [("padding", "12px"), ("border", "1px solid #333"), ("border-radius", "4px"),
       ("background", "#0a0a0a"), ("color", "#ffffff"), ("font-family", "inherit"),
       ("font-size", "16px")]⟩,
     ⟨"textarea", [("resize", "vertical"), ("min-height", "100px")]⟩]

/-- The style of the form that asks for an address. -/
def emailStyle : String :=
  styleSheet
    [⟨".email-form-container", [("display", "flex"), ("gap", "10px")]⟩,
     ⟨".email-input", [("flex", "1")]⟩,
     ⟨".email-privacy", [("display", "block"), ("margin-top", "10px"), ("opacity", "0.7")]⟩]

/-- A button that submits its form. -/
def submitButton (text : String) : Block :=
  leaf "button" [attr "type" "submit", attr "class" "btn btn-primary"] text

/-- The number of rows of a text area. -/
def rowCount (v : Option Value) : String :=
  match counted? v with
  | some (n, text) => if 0 < n then text else "3"
  | none => "3"

/-- A control of a form, and whether it submits the form. -/
def control (e : Fields) (defaultKind : String) : Block × Bool :=
  let kind := asText (Assoc.get? e "type") defaultKind
  let model := attr? "v-model" (eitherField e "bind" "name")
  let placeholder := attr "placeholder" (eitherField e "placeholder" "label")
  let required :=
    match Assoc.get? e "required" with
    | some (.bool true) => [flag "required"]
    | _ => []
  if kind == "text_area" || kind == "textarea" then
    let rows := attr "rows" (rowCount (Assoc.get? e "rows"))
    (leaf "textarea" (model ++ placeholder :: rows :: required) "", false)
  else if kind == "button" then
    let action := field e "action" ""
    let attrs :=
      if action.isEmpty then [attr "type" "submit"]
      else [attr "type" "button", attr "@click" action]
    (leaf "button" (attrs ++ attr? ":disabled" (field e "disabled_when" ""))
      (field e "text" "Submit"), action.isEmpty)
  else if kind == "select" then
    let option (o : Fields) : Block :=
      leaf "option" [attr "value" (eitherField o "value" "text")] (eitherField o "text" "value")
    (.block "select" (model ++ required) ((elements (Assoc.get? e "options")).map option), false)
  else
    let standard :=
      if kind == "email" then "email" else if kind == "password" then "password" else "text"
    (.line (.void "input"
      (model ++ attr "type" (field e "input_type" standard) :: placeholder :: required)), false)

/-- The elements from which the controls of a form are made: the listed ones, else one that takes
the component's own binding. -/
def controlElements (c : Component) (defaultKind : String) : List Fields :=
  let listed := elements (Assoc.get? c.properties "elements")
  let listed := if listed.isEmpty then elements (Assoc.get? c.properties "fields") else listed
  if !listed.isEmpty then listed
  else if c.shows "bind" then
    [[("type", .text defaultKind), ("bind", (Assoc.get? c.properties "bind").getD .null),
      ("placeholder", (Assoc.get? c.properties "placeholder").getD (.text "")),
      ("rows", (Assoc.get? c.properties "rows").getD (.int 3))]]
  else []

/-- A form with its controls. -/
def formMarkup (c : Component) (defaultKind : String) : List Block :=
  let controls := (controlElements c defaultKind).map fun e => control e defaultKind
  let extra :=
    if controls.any (·.2) then [] else [submitButton (c.prop "submit_text" "Submit")]
  [.block "form" [attr "@submit.prevent" (c.prop "action" "submitForm")]
    (controls.map (·.1) ++ extra)]

/-- A form that asks for an address. -/
def emailMarkup (c : Component) : List Block :=
  let optional (key tag class_ : String) : List Block :=
    if c.shows key then [leaf tag [attr "class" class_] (c.prop key "")] else []
  [.block "div" [attr "class" "email-form"]
    (leaf "h3" [attr "class" "email-title"] (c.prop "title" "") ::
      optional "description" "p" "email-description" ++
      [.block "form"
        [attr "@submit.prevent" (c.prop "action" "submit_email"),
         attr "class" "email-form-container"]
        [.line (.void "input"
          [attr "v-model" (c.prop "bind" "user_email"), attr "type" "email",
           attr "placeholder" (c.prop "placeholder" "you@example.com"), attr "class" "email-input",
           flag "required"]),
         submitButton (c.prop "button_text" "Submit")]] ++
      optional "privacy_note" "small" "email-privacy")]

/-- A form of controls. -/
def formInput : Pattern where
  id := "form_input"
  required := ["action"]
  keywords := ["form", "input", "field", "submit", "login", "register"]
  render c := layOut (formMarkup c "input")
  style := formStyle
  state _ := []

/-- A form around a text area. -/
def textArea : Pattern where
  id := "text_area"
  required := ["bind"]
  keywords := []
  render c := layOut (formMarkup c "textarea")
  style := formStyle
  state _ := []

/-- A form that asks for an address. -/
def emailForm : Pattern where
  id := "email_form"
  required := ["title"]
  keywords := []
  render c := layOut (emailMarkup c)
  style := emailStyle
  state c := [(asText (Assoc.get? c.properties "bind") "user_email", .text "")]

end PageCompiler.Pattern
