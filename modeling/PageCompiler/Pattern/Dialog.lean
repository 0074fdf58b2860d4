import PageCompiler.Markup.Css
import PageCompiler.Pattern.Element

/-!
# `PageCompiler.Pattern.Dialog`: content that comes and goes

Two patterns: a dialog that lies over the page, and a pair of branches of which one is shown.
-/

set_option autoImplicit false

namespace PageCompiler.Pattern

open Markup

/-- The style of dialogs. -/
def dialogStyle : String :=
  styleSheet
    [⟨".modal-overlay",
      [("position", "fixed"), ("top", "0"), ("left", "0"), ("right", "0"), ("bottom", "0"),
       ("background", "rgba(0, 0, 0, 0.8)"), ("display", "flex"), ("justify-content", "center"),
       ("align-items", "center"), ("z-index", "1000")]⟩,
     ⟨".modal-content",
      [("background", "#1a1a1a"), ("border", "1px solid #333"), ("border-radius", "8px"),
       ("padding", "30px"), ("max-width", "500px"), ("width", "90%")]⟩,
     ⟨".modal-actions",
      [("margin-top", "20px"), ("display", "flex"), ("gap", "10px"),
       ("justify-content", "flex-end")]⟩]

/-- The value of an expression if the component binds one, else a fixed text. -/
def textOrBinding (c : Component) (key : String) : String :=
  let binding := c.prop (key ++ "_bind") ""
  if binding.isEmpty then c.prop key "" else mustache binding

/-- A button of a dialog. -/
def dialogButton (action : Fields) : Block :=
  leaf "button"
    (attr "type" "button" :: attr? "@click" (field action "action" "") ++
      [attr "class" ("btn btn-" ++ field action "style" "secondary")])
    (field action "text" "OK")

/-- A dialog. -/
def dialogMarkup (c : Component) : List Block :=
  [.block "div"
    (attr "v-if" (c.prop "visible_when" "") :: attr "class" "modal-overlay" ::
      attr? "@click" (c.prop "overlay_click" ""))
    [.block "div" [attr "class" "modal-content", flag "@click.stop"]
      [leaf "h3" [] (textOrBinding c "title"),
       leaf "div" [attr "class" "modal-body"] (textOrBinding c "content"),
       .block "div" [attr "class" "modal-actions"]
        ((elements (Assoc.get? c.properties "actions")).map dialogButton)]]]

/-- The elements of a branch. -/
def branch (c : Component) (key : String) : List Block :=
  genericElements (elements (Assoc.get? (mapping (Assoc.get? c.properties key)) "elements"))

/-- Two branches of which one is shown. -/
def conditionalMarkup (c : Component) : List Block :=
  [.block "div" [attr "v-if" (c.prop "condition" "")] (branch c "if_true"),
   .block "div" [flag "v-else"] (branch c "if_false")]

/-- A dialog that lies over the page. -/
def modalDialog : Pattern where
  id := "modal_dialog"
  required := ["visible_when"]
  keywords := ["modal", "popup", "dialog", "overlay"]
  render c := layOut (dialogMarkup c)
  style := dialogStyle
  state _ := []

/-- Two branches of which one is shown. -/
def conditionalContent : Pattern where
  id := "conditional_content"
  required := ["condition"]
  keywords := []
  render c := layOut (conditionalMarkup c)
  style := ""
  state _ := []

end PageCompiler.Pattern
