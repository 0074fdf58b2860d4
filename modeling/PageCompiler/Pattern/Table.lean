import PageCompiler.Markup.Css
import PageCompiler.Pattern.Element

/-!
# `PageCompiler.Pattern.Table`: rows of data

Two patterns over a data source: a table with one column for each listed field, and a list with
action buttons in each row.
-/

set_option autoImplicit false

namespace PageCompiler.Pattern

open Markup

/-- The style of lists. -/
def listStyle : String :=
  styleSheet
    [⟨".list-item",
      [("display", "flex"), ("justify-content", "space-between"), ("align-items", "center"),
       ("padding", "10px"), ("border-bottom", "1px solid #333")]⟩,
     ⟨".list-item:last-child", [("border-bottom", "none")]⟩]

/-- The style of tables. -/
def tableStyle : String :=
  styleSheet
    [⟨"table", [("width", "100%"), ("border-collapse", "collapse")]⟩,
     ⟨"th, td",
      [("padding", "12px"), ("text-align", "left"), ("border-bottom", "1px solid #333")]⟩,
     ⟨"th", [("background", "#333"), ("font-weight", "600")]⟩]

/-- A list with action buttons in each row. -/
def actionListMarkup (c : Component) : List Block :=
  let source := c.prop "data_source" ""
  let key := "item." ++ c.prop "key_field" ""
  let button (action : Fields) : Block :=
    let handler := field action "action" ""
    let click := if handler.isEmpty then [] else [attr "@click" (handler ++ "(" ++ key ++ ")")]
    leaf "button" (attr "type" "button" :: attr "class" "btn btn-secondary" :: click)
      (field action "text" "Select")
  let rows : Block :=
    .block "div" [attr "v-for" ("item in " ++ source), attr ":key" key, attr "class" "list-item"]
      (leaf "span" [] (mustache ("item." ++ c.prop "display_field" "text")) ::
        (elements (Assoc.get? c.properties "actions")).map button)
  let empty : List Block :=
    if c.shows "empty_text" then
      [leaf "p" [attr "v-if" ("!" ++ source ++ ".length"), attr "class" "list-empty"]
        (c.prop "empty_text" "")]
    else []
  rows :: empty

/-- The field and the label of a column. Columns without a field are left out. -/
def column? (column : Fields) : Option (String × String) :=
  let key := eitherField column "key" "text"
  if key.isEmpty then none
  else
    let label :=
      match Assoc.get? column "label" with
      | some v => if v.isTruthy then some v else column.either "text" "key"
      | none => column.either "text" "key"
    some (key, escaped label "")

/-- A table with one column for each listed field. -/
def tableMarkup (c : Component) : List Block :=
  let columns := (elements (Assoc.get? c.properties "columns")).filterMap column?
  [.block "table" []
    [.block "thead" []
      [.block "tr" [] (columns.map fun (_, label) => leaf "th" [] label)],
     .block "tbody" []
      [.block "tr"
        [attr "v-for" ("row in " ++ c.prop "data_source" ""),
         attr ":key" ("row." ++ c.prop "key_field" "id")]
        (columns.map fun (key, _) => leaf "td" [] (mustache ("row." ++ key)))]]]

/-- A list with action buttons in each row. -/
def actionList : Pattern where
  id := "action_list"
  required := ["data_source", "key_field"]
  keywords := ["menu", "navigation", "actions", "buttons"]
  render c := layOut (actionListMarkup c)
  style := listStyle
  state _ := []

/-- A table with one column for each listed field. -/
def dataTable : Pattern where
  id := "data_table"
  required := ["data_source", "columns"]
  keywords := ["table", "grid", "data", "rows", "columns"]
  render c := layOut (tableMarkup c)
  style := tableStyle
  state _ := []

end PageCompiler.Pattern
