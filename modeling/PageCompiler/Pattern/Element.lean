import PageCompiler.Markup.Tree
import PageCompiler.Pattern.Basic
import PageCompiler.Text.Letter

/-!
# `PageCompiler.Pattern.Element`: what rules share

Many properties hold a list of small maps: the elements of a branch, the buttons of a card, the
columns of a table. `elements` reads such a property leniently. A lone map counts as a list of
one, and a scalar counts as a map that holds it as its text.
-/

set_option autoImplicit false

namespace PageCompiler.Pattern

open Text Markup

/-- One element of a list property. Scalars with nothing to show are left out. -/
def element? : Value → Option Fields
  | .map fields => some fields
  | v => if v.display.isEmpty then none else some [("text", v)]

/-- The elements of a list property. -/
def elements : Option Value → List Fields
  | none | some .null => []
  | some (.map fields) => [fields]
  | some (.list items) => items.filterMap element?
  | some v => if v.display.isEmpty then [] else [[("text", v)]]

/-- The fields of a map property. Anything else has none. -/
def mapping : Option Value → Fields
  | some (.map fields) => fields
  | _ => []

/-- A field as markup, or a default. -/
def field (fields : Fields) (key : String) (default : String) : String :=
  escaped (Assoc.get? fields key) default

/-- One of two fields as markup. -/
def eitherField (fields : Fields) (first second : String) : String :=
  escaped (fields.either first second) ""

/-- A whole number, counting the truth values as zero and one, and how it is written. -/
def counted? : Option Value → Option (Int × String)
  | some (.int n) => some (n, toString n)
  | some (.bool true) => some (1, "True")
  | some (.bool false) => some (0, "False")
  | _ => none

/-- A text in lower case with one underscore for each run of other characters than ASCII letters
and digits, and none at the ends. `pending` says that such a run has been passed. -/
def slugChars (started pending : Bool) : List Char → List Char
  | [] => []
  | c :: rest =>
    if ('a' ≤ c && c ≤ 'z') || ('0' ≤ c && c ≤ '9') then
      if started && pending then '_' :: c :: slugChars true false rest
      else c :: slugChars true false rest
    else slugChars started true rest

/-- A value as the key of a tab, or a default. -/
def slug (v : Option Value) (default : String) : String :=
  orElse (String.ofList (slugChars false false (lower (asText v "").toList))) default

/-- The level of a heading, from one to six. -/
def headingLevel (v : Option Value) : String :=
  match counted? v with
  | some (n, text) => if 1 ≤ n && n ≤ 6 then text else "2"
  | none => "2"

/-- A generic element: a heading, a button, a paragraph or a box. -/
def genericElement (e : Fields) : Inline :=
  let kind := asText (Assoc.get? e "type") "text"
  if kind == "heading" then
    .element ("h" ++ headingLevel (Assoc.get? e "level")) [] [.text (field e "text" "")]
  else if kind == "button" then
    .element "button" (attr "type" "button" :: attr? "@click" (field e "action" ""))
      [.text (field e "text" "Continue")]
  else if kind == "text" then .element "p" [] [.text (eitherField e "content" "text")]
  else .element "div" [] [.text (eitherField e "text" "content")]

/-- Generic elements, one to a line. -/
def genericElements (es : List Fields) : List Block :=
  es.map fun e => .line (genericElement e)

end PageCompiler.Pattern
