import PageCompiler.Markup.Css
import PageCompiler.Pattern.Element

/-!
# `PageCompiler.Pattern.Panel`: panels

Three patterns: a card with buttons, a panel that scrolls through messages, and a panel with tabs.
The tabs of a panel are told apart by keys made of their names.
-/

set_option autoImplicit false

namespace PageCompiler.Pattern

open Text Markup

/-- The style of panels. -/
def panelStyle : String :=
  styleSheet
    [⟨".card-buttons, .tab-buttons", [("display", "flex"), ("gap", "10px"), ("flex-wrap", "wrap")]⟩,
     ⟨".feedback-area", [("margin-top", "15px"), ("opacity", "0.8")]⟩,
     ⟨".scrollable-content", [("max-height", "400px"), ("overflow-y", "auto")]⟩,
     ⟨".conversation-message", [("padding", "8px 0"), ("border-bottom", "1px solid #333")]⟩,
     ⟨".tab-button.active", [("background", "#00ff88"), ("color", "#000")]⟩,
     ⟨".tab-content", [("margin-top", "15px")]⟩]

/-- A button of a card. -/
def cardButton (button : Fields) : Block :=
  leaf "button"
    (attr "type" "button" :: attr "class" ("btn btn-" ++ field button "style" "primary") ::
      attr? "@click" (field button "action" "") ++
      attr? "v-if" (eitherField button "visible_when" "conditional") ++
      attr? "title" (field button "tooltip" ""))
    (field button "text" "Go")

/-- A card with buttons. -/
def cardContainerMarkup (c : Component) : List Block :=
  let feedback := c.prop "feedback_bind" "feedback_message"
  let description :=
    if c.shows "description" then
      [leaf "p" [attr "class" "card-description"] (c.prop "description" "")]
    else []
  [.block "div" [attr "class" "card-container"]
    (leaf "h2" [] (c.prop "title" "") :: description ++
      [.block "div" [attr "class" "card-buttons"]
        ((elements (Assoc.get? c.properties "buttons")).map cardButton),
       leaf "div" [attr "class" "feedback-area", attr "v-if" feedback] (mustache feedback)])]

/-- A panel that scrolls through messages. -/
def scrollableMarkup (c : Component) : List Block :=
  let source := c.prop "data_source" "conversation_messages"
  let key := "message." ++ c.prop "key_field" "timestamp"
  let content := "message." ++ c.prop "content_field" "content"
  let kind := "message." ++ c.prop "type_field" "type"
  [.block "div" [attr "class" "scrollable-panel"]
    [leaf "h2" [] (c.prop "title" ""),
     .block "div" [attr "class" "scrollable-content"]
      [.block "div"
        [attr "v-for" ("message in " ++ source), attr ":key" key,
         attr ":class" ("'conversation-message ' + " ++ kind)]
        [leaf "div" [attr "class" "timestamp"] (mustache key),
         leaf "div" [attr "class" "message-content"] (mustache content)]]]]

/-- The key of the tab at a position, counted from one. -/
def tabKey (tab : Fields) (position : Nat) : String :=
  slug (tab.either "name" "text") ("tab_" ++ toString position)

/-- The label of a tab: its icon and its name. -/
def tabLabel (tab : Fields) : String :=
  trimmed (field tab "icon" "" ++ " " ++ eitherField tab "name" "text")

/-- The button that shows a tab. -/
def tabButton (active : String) (tab : Fields) (position : Nat) : Block :=
  let key := "'" ++ tabKey tab position ++ "'"
  leaf "button"
    [attr "type" "button", attr "class" "tab-button",
     attr ":class" ("\x7b active: " ++ active ++ " === " ++ key ++ " \x7d"),
     attr "@click" (active ++ " = " ++ key)]
    (tabLabel tab)

/-- The content of a tab. -/
def tabPane (active : String) (tab : Fields) (position : Nat) : Block :=
  let binding := field tab "content_bind" ""
  leaf "div"
    [attr "v-if" (active ++ " === '" ++ tabKey tab position ++ "'"), attr "class" "tab-content"]
    (if binding.isEmpty then field tab "content" "" else mustache binding)

/-- A panel with tabs. -/
def tabbedMarkup (c : Component) : List Block :=
  let active := c.prop "bind" "active_tab"
  let tabs := (elements (Assoc.get? c.properties "tabs")).zipIdx 1
  let title := if c.shows "title" then [leaf "h2" [] (c.prop "title" "")] else []
  [.block "div" [attr "class" "tabbed-panel"]
    (title ++
      [.block "div" [attr "class" "tab-buttons"] (tabs.map fun (tab, n) => tabButton active tab n),
       .block "div" [attr "class" "tab-content-area"]
        (tabs.map fun (tab, n) => tabPane active tab n)])]

/-- The state of a panel with tabs: the key of the tab that is shown, at first the first one. -/
def tabbedState (c : Component) : Fields :=
  let first :=
    match elements (Assoc.get? c.properties "tabs") with
    | tab :: _ => tabKey tab 1
    | [] => ""
  [(asText (Assoc.get? c.properties "bind") "active_tab", .text first)]

/-- A card with buttons. -/
def cardContainer : Pattern where
  id := "card_container"
  required := ["title"]
  keywords := []
  render c := layOut (cardContainerMarkup c)
  style := panelStyle
  state _ := []

/-- A panel that scrolls through messages. -/
def scrollablePanel : Pattern where
  id := "scrollable_panel"
  required := ["title"]
  keywords := []
  render c := layOut (scrollableMarkup c)
  style := panelStyle
  state _ := []

/-- A panel with tabs. -/
def tabbedPanel : Pattern where
  id := "tabbed_panel"
  required := ["tabs"]
  keywords := []
  render c := layOut (tabbedMarkup c)
  style := panelStyle
  state := tabbedState

end PageCompiler.Pattern
