import PageCompiler.Decimal.Layout
import PageCompiler.Text.Blank
import PageCompiler.Value

/-!
# `PageCompiler.Markup.Display`: values as text on a page

`Value.display` is the text of a value for people. A blank text displays as nothing, so that a
default can take its place. `escape` makes a text safe between tags and inside of quoted attribute
values.
-/

set_option autoImplicit false

namespace PageCompiler

open Text

mutual

/-- The text of a value for people. -/
def Value.display : Value → String
  | .null => ""
  | .bool b => if b then "true" else "false"
  | .int n => toString n
  | .float x => Decimal.Layout.plain.write x
  | .text s => if allBlank s.toList then "" else s
  | .list items => ", ".intercalate (displayItems items)
  | .map fields => ", ".intercalate (displayFields fields)

/-- The texts of the items of a list. -/
def displayItems : List Value → List String
  | [] => []
  | v :: rest => v.display :: displayItems rest

/-- The texts of the fields of a map. -/
def displayFields : List (String × Value) → List String
  | [] => []
  | (key, v) :: rest => (key ++ ": " ++ v.display) :: displayFields rest

end

namespace Markup

/-- `s`, or `default` in the place of an empty text. -/
def orElse (s default : String) : String :=
  if s.isEmpty then default else s

/-- The text of a value that may be missing, or a default. -/
def asText (v : Option Value) (default : String) : String :=
  orElse ((v.map Value.display).getD "") default

/-- One character of a page as markup. -/
def escapeChar (c : Char) : List Char :=
  if c == '&' then "&amp;".toList
  else if c == '<' then "&lt;".toList
  else if c == '>' then "&gt;".toList
  else if c == '"' then "&quot;".toList
  else if c == '\x27' then "&#x27;".toList
  else [c]

/-- A text as markup that shows it. -/
def escape (s : String) : String :=
  String.ofList (s.toList.flatMap escapeChar)

/-- The text of a value that may be missing, or a default, as markup. -/
def escaped (v : Option Value) (default : String) : String :=
  escape (asText v default)

end Markup

/-- A value that counts as given: not absent, not false, not zero, not empty. -/
def Value.isTruthy : Value → Bool
  | .null => false
  | .bool b => b
  | .int n => n != 0
  | .float x => x != 0.0
  | .text s => !s.isEmpty
  | .list items => !items.isEmpty
  | .map fields => !fields.isEmpty

/-- The first field if it counts as given, else the second. -/
def Fields.either (fields : Fields) (first second : String) : Option Value :=
  match Assoc.get? fields first with
  | some v => if v.isTruthy then some v else Assoc.get? fields second
  | none => Assoc.get? fields second

end PageCompiler
