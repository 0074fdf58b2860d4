import PageCompiler.Yaml.Node

/-!
# `PageCompiler.Yaml.Reader`: reading a file

`Yaml.read` gives the data of a text. Which of several faults is reported follows from an order. A
text that is not well formed comes before scalars that denote nothing. Of those the one on the
outermost level is reported, and on one level the first.
-/

set_option autoImplicit false

namespace PageCompiler.Yaml

/-- Characters that a file may hold. -/
def isAllowed (c : Char) : Bool :=
  let n := c.toNat
  n == 9 || n == 10 || n == 13 || (0x20 ≤ n && n ≤ 0x7e) || n == 0x85 ||
    (0xa0 ≤ n && n ≤ 0xfffd) || 0x10000 ≤ n

namespace Node

mutual

/-- The number of nodes in a tree. -/
def size : Node → Nat
  | .sequence items => sizeItems items + 1
  | .mapping entries => sizeEntries entries + 1
  | .unmergeable => 2
  | .scalar _ _ | .refused => 1

/-- The number of nodes in the items of a sequence. -/
def sizeItems : List Node → Nat
  | [] => 0
  | n :: rest => n.size + sizeItems rest

/-- The number of nodes in the entries of a mapping. -/
def sizeEntries : List (Node × Node) → Nat
  | [] => 0
  | (key, value) :: rest => key.size + value.size + sizeEntries rest

end

/-- The nodes right below a node, in order. -/
def children : Node → List Node
  | .sequence items => items
  | .mapping entries => entries.flatMap fun (key, value) => [key, value]
  | .unmergeable => [.refused]
  | .scalar _ _ | .refused => []

/-- What is wrong with a node on its own. -/
def fault? : Node → Option YamlError
  | .scalar s true =>
    match Kind.ofPlain s.toList with
    | .merge | .default => some .malformed
    | k => (k.fault? s.toList).map .scalar
  | .refused => some .malformed
  | _ => none

theorem sizeItems_append (a b : List Node) : sizeItems (a ++ b) = sizeItems a + sizeItems b := by
  induction a with
  | nil => simp [sizeItems]
  | cons n rest ih => simp [sizeItems, ih]; omega

theorem sizeItems_flatMap (entries : List (Node × Node)) :
    sizeItems (entries.flatMap fun (key, value) => [key, value]) = sizeEntries entries := by
  induction entries with
  | nil => simp [sizeItems, sizeEntries]
  | cons e rest ih =>
    simp only [List.flatMap_cons, sizeItems_append, ih]
    simp [sizeItems, sizeEntries]

theorem sizeItems_children_lt (n : Node) : sizeItems n.children < n.size := by
  cases n with
  | sequence items => simp [children, size]
  | mapping entries => simp only [children, size, sizeItems_flatMap]; omega
  | _ => simp [children, size, sizeItems]

/-- The first fault of some trees, level by level. -/
def firstFault? (queue : List Node) : Option YamlError :=
  match queue with
  | [] => none
  | n :: rest =>
    match n.fault? with
    | some e => some e
    | none => firstFault? (rest ++ n.children)
termination_by sizeItems queue
decreasing_by
  have := sizeItems_children_lt n
  simp only [sizeItems_append, sizeItems]
  omega

/-- The text of a scalar that is one. -/
def text? : Node → Option String
  | .scalar s plain => if plain && Kind.ofPlain s.toList != .text then none else some s
  | _ => none

mutual

/-- The data of a node. -/
def toData : Node → Yaml
  | .mapping entries => .map (toEntries [] entries)
  | .scalar s plain =>
    match text? (.scalar s plain) with
    | some s => .text s
    | none => .other
  | _ => .other

/-- The entries of a mapping. Of entries with equal keys the last one counts. -/
def toEntries (done : List (Option String × Yaml)) :
    List (Node × Node) → List (Option String × Yaml)
  | [] => done
  | (key, value) :: rest => toEntries (put key.text? value.toData done) rest

end

end Node

/-- The data of a text. An empty text has none. -/
def read (s : String) : Except YamlError Yaml :=
  if !s.toList.all isAllowed then .error .malformed
  else
    match (tokens s.toList).bind Node.ofTokens with
    | .error e => .error e
    | .ok none => .ok .other
    | .ok (some n) =>
      match Node.firstFault? [n] with
      | some e => .error e
      | none => .ok n.toData

end PageCompiler.Yaml
