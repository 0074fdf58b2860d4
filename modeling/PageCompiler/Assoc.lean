/-!
# `PageCompiler.Assoc`: keyed entries in the order of their first insertion

A repeated key keeps its first place and takes its last value. Sections, properties, fragments and
alias tables are all kept this way, because their order shows in the output.
-/

set_option autoImplicit false

namespace PageCompiler

/-- Entries by name, in order. -/
abbrev Assoc (α : Type) := List (String × α)

namespace Assoc

variable {α : Type}

/-- The value under a key. -/
def get? (m : Assoc α) (key : String) : Option α :=
  (m.find? fun entry => entry.1 == key).map (·.2)

/-- A key has a value. -/
def has (m : Assoc α) (key : String) : Bool :=
  m.any fun entry => entry.1 == key

/-- Puts a value under a key: in the place of an entry with that key, else at the end. -/
def insert : Assoc α → String → α → Assoc α
  | [], key, value => [(key, value)]
  | (k, v) :: rest, key, value =>
    if k == key then (k, value) :: rest else (k, v) :: insert rest key value

/-- Entries inserted one after another. -/
def ofPairs (pairs : List (String × α)) : Assoc α :=
  pairs.foldl (fun m entry => m.insert entry.1 entry.2) []

/-- The keys in order. -/
def keys (m : Assoc α) : List String :=
  m.map (·.1)

/-- The values in order. -/
def values (m : Assoc α) : List α :=
  m.map (·.2)

end Assoc

end PageCompiler
