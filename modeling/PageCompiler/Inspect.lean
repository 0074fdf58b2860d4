import PageCompiler.Decimal.Layout
import PageCompiler.Text.Quoted
import PageCompiler.Value

/-!
# `PageCompiler.Inspect`: values in a form that tells their kind

Messages for the operator show values so that a text can be told from a number. `Value.inspect` puts
texts in quotes. `Value.shown` leaves out the quotes of a text that stands alone.
-/

set_option autoImplicit false

namespace PageCompiler

mutual

/-- A value in a form that tells its kind. -/
def Value.inspect : Value → String
  | .null => "None"
  | .bool b => if b then "True" else "False"
  | .int n => toString n
  | .float x => Decimal.Layout.plain.write x
  | .text s => Text.quoted s
  | .list items => "[" ++ ", ".intercalate (inspectItems items) ++ "]"
  | .map fields => "\x7b" ++ ", ".intercalate (inspectFields fields) ++ "\x7d"

/-- The items of a list in a form that tells their kinds. -/
def inspectItems : List Value → List String
  | [] => []
  | v :: rest => v.inspect :: inspectItems rest

/-- The fields of a map in a form that tells their kinds. -/
def inspectFields : List (String × Value) → List String
  | [] => []
  | (key, v) :: rest => (Text.quoted key ++ ": " ++ v.inspect) :: inspectFields rest

end

/-- A value in a form that tells its kind, except that a text stands for itself. -/
def Value.shown : Value → String
  | .text s => s
  | v => v.inspect

end PageCompiler
