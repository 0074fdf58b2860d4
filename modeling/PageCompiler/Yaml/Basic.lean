import PageCompiler.Yaml.Kind

/-!
# `PageCompiler.Yaml.Basic`: the data of a file

A file holds texts, mappings and other things. What the other things are does not matter to those
who read files here.
-/

set_option autoImplicit false

namespace PageCompiler

/-- The data of a file. -/
inductive Yaml where
  | text (s : String)
  /-- Anything but a text and a mapping. -/
  | other
  /-- Entries in order. A key is a text, or something else that is not kept. -/
  | map (entries : List (Option String × Yaml))
  deriving Inhabited, Repr

/-- Why a file cannot be read. -/
inductive YamlError where
  /-- The text has not the form of a file. -/
  | malformed
  | scalar (e : Yaml.BadScalar)
  deriving DecidableEq, Repr

namespace Yaml

/-- Entries with a value under a key. A key that is there keeps its place. -/
def put (key : Option String) (value : Yaml) :
    List (Option String × Yaml) → List (Option String × Yaml)
  | [] => [(key, value)]
  | (k, v) :: rest => if k == key then (k, value) :: rest else (k, v) :: put key value rest

end Yaml

end PageCompiler
