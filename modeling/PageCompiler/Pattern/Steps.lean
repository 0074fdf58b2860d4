import PageCompiler.Markup.Css
import PageCompiler.Pattern.Element

/-!
# `PageCompiler.Pattern.Steps`: progress through steps

Two patterns: a wizard that walks through steps, and a bar that shows how far a walk has come.
-/

set_option autoImplicit false

namespace PageCompiler.Pattern

open Markup

/-- The style of wizards. -/
def wizardStyle : String :=
  styleSheet
    [⟨".wizard .steps", [("display", "flex"), ("gap", "10px"), ("margin-bottom", "20px")]⟩,
     ⟨".wizard .steps .active", [("color", "#00ff88"), ("font-weight", "600")]⟩,
     ⟨".step-actions",
      [("display", "flex"), ("justify-content", "space-between"), ("margin-top", "20px")]⟩]

/-- The style of progress bars. -/
def progressStyle : String :=
  styleSheet
    [⟨".progress-bar",
      [("height", "8px"), ("background", "#333"), ("border-radius", "4px"),
       ("overflow", "hidden")]⟩,
     ⟨".progress-fill",
      [("height", "100%"), ("background", "#00ff88"), ("transition", "width 0.3s ease")]⟩,
     ⟨".progress-text", [("margin-top", "8px"), ("font-size", "14px"), ("opacity", "0.8")]⟩]

/-- A button that walks to another step. -/
def stepButton (config : Fields) (defaultAction defaultText : String) : Block :=
  .block "button"
    [attr "type" "button", attr "class" "btn btn-secondary",
     attr "@click" (field config "action" defaultAction),
     attr ":disabled" (field config "disabled_when" "false")]
    [.line (.text (field config "text" defaultText))]

/-- A wizard. -/
def wizardMarkup (c : Component) : List Block :=
  let current := c.prop "current_step" ""
  let steps := c.prop "steps_bind" "steps"
  let navigation := mapping (Assoc.get? c.properties "navigation")
  let step := steps ++ "[" ++ current ++ "]"
  [.block "div" [attr "class" "wizard"]
    [.block "div" [attr "class" "steps"]
      [.block "div"
        [attr "v-for" ("(step, index) in " ++ steps), attr ":key" "index",
         attr ":class" ("\x7b active: " ++ current ++ " === index \x7d")]
        [.line (.text (mustache "step.title"))]],
     .block "div" [attr "class" "step-content"]
      [.line (.closed "component" [attr "v-if" step, attr ":is" (step ++ ".component")])],
     .block "div" [attr "class" "step-actions"]
      [stepButton (mapping (Assoc.get? navigation "previous")) "previousStep" "Previous",
       stepButton (mapping (Assoc.get? navigation "next")) "nextStep" "Next"]]]

/-- A progress bar. -/
def progressMarkup (c : Component) : List Block :=
  let current := c.prop "current_step" ""
  let total := c.prop "total_steps" ""
  let width :=
    orElse (c.prop "percent_bind" "")
      ("Math.round((" ++ current ++ ") / (" ++ total ++ ") * 100)")
  [.block "div" [attr "class" "progress-container"]
    [.block "div" [attr "class" "progress-bar"]
      [leaf "div"
        [attr "class" "progress-fill",
         attr ":style" ("\x7b width: (" ++ width ++ ") + '%' \x7d")] ""],
     leaf "div" [attr "class" "progress-text"] (mustache current ++ " of " ++ total)]]

/-- A wizard that walks through steps. -/
def wizardComponent : Pattern where
  id := "wizard_component"
  required := ["current_step"]
  keywords := ["wizard", "step", "multi-step", "progress"]
  render c := layOut (wizardMarkup c)
  style := wizardStyle
  state _ := []

/-- A bar that shows how far a walk has come. -/
def progressBar : Pattern where
  id := "progress_bar"
  required := ["current_step", "total_steps"]
  keywords := []
  render c := layOut (progressMarkup c)
  style := progressStyle
  state _ := []

end PageCompiler.Pattern
