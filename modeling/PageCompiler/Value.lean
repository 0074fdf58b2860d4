import PageCompiler.Assoc

/-!
# `PageCompiler.Value`: property values

A value is what stands behind a key: a text, a number, a truth value, a list of values, or a map
from names to values. `null` is the absent value. No document denotes it, but a reply of a
generative service can hold it.
-/

set_option autoImplicit false

namespace PageCompiler

/-- A property value. The fields of a map have different names and stand in order. -/
inductive Value where
  | null
  | bool (b : Bool)
  | int (n : Int)
  | float (x : Float)
  | text (s : String)
  | list (items : List Value)
  | map (fields : List (String × Value))
  deriving Inhabited, Repr

/-- Properties by name, in order. -/
abbrev Fields := Assoc Value

/-- The text of a value that is a text. -/
def Value.text? : Value → Option String
  | .text s => some s
  | _ => none

/-- The fields of a value that is a map. -/
def Value.fields? : Value → Option Fields
  | .map fields => some fields
  | _ => none

mutual

/-- Some text or some name in a value satisfies `p`. -/
def Value.anyText (p : String → Bool) : Value → Bool
  | .text s => p s
  | .list items => anyItemText p items
  | .map fields => anyFieldText p fields
  | _ => false

/-- Some text or some name in the items satisfies `p`. -/
def Value.anyItemText (p : String → Bool) : List Value → Bool
  | [] => false
  | v :: rest => v.anyText p || anyItemText p rest

/-- Some text or some name in the fields satisfies `p`. -/
def Value.anyFieldText (p : String → Bool) : List (String × Value) → Bool
  | [] => false
  | (key, v) :: rest => p key || v.anyText p || anyFieldText p rest

end

end PageCompiler
