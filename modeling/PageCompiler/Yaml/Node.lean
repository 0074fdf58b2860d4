import PageCompiler.Yaml.Layout

/-!
# `PageCompiler.Yaml.Node`: the tree of a file

Tokens make up nodes: scalars, sequences and mappings. What is left out where a node may stand is an
empty scalar.

Mappings are merged when they are made. An entry whose key is the sign `<<` gives way to the entries
of the mapping it holds, or of the mappings in the sequence it holds, and those go in front.

Every reader gives back what it leaves unread, with a bound on its length, so the readers end on
every list of tokens.
-/

set_option autoImplicit false

namespace PageCompiler.Yaml

/-- A node of a file. -/
inductive Node where
  | scalar (text : String) (plain : Bool)
  | sequence (items : List Node)
  | mapping (entries : List (Node × Node))
  /-- A mapping into which something else than mappings is merged. -/
  | unmergeable
  /-- A collection where a key should be. -/
  | refused
  deriving Inhabited, Repr

namespace Node

/-- What stands for a node that is left out. -/
def empty : Node :=
  .scalar "" true

/-- The sign that merges. -/
def isMerge : Node → Bool
  | .scalar s true => Kind.ofPlain s.toList == .merge
  | _ => false

/-- A node as a key. Collections cannot be keys, and the sign `=` is a text. -/
def asKey : Node → Node
  | .scalar s plain => .scalar s (plain && Kind.ofPlain s.toList != .default)
  | _ => .refused

/-- The entries of a mapping. -/
def entries? : Node → Option (List (Node × Node))
  | .mapping entries => some entries
  | _ => none

/-- The entries that a node brings into a mapping. Of several mappings the last one goes first. -/
def merged? : Node → Option (List (Node × Node))
  | .mapping entries => some entries
  | .sequence items => (items.mapM entries?).map fun es => es.reverse.flatten
  | _ => none

/-- The mapping of some entries, with those that are merged into it. -/
def ofEntries (entries : List (Node × Node)) : Node :=
  let own := entries.filter fun (key, _) => !key.isMerge
  let sources := (entries.filter fun (key, _) => key.isMerge).map (·.2)
  match sources.mapM merged? with
  | none => .unmergeable
  | some more => .mapping (more.flatten ++ own.map fun (key, value) => (key.asKey, value))

/-- Tokens that are left, fewer than there were. -/
abbrev Fewer (ts : List Token) := { r : List Token // r.length < ts.length }

/-- Tokens that are left, not more than there were. -/
abbrev Left (ts : List Token) := { r : List Token // r.length ≤ ts.length }

/-- Why a list of tokens cannot go on. -/
def refusal : List Token → YamlError
  | .broken e :: _ => .scalar e
  | _ => .malformed

/-- The next token is one of these. -/
def stands (stops : List Token) : List Token → Bool
  | [] => false
  | t :: _ => stops.contains t

/-- The tokens in front of which a node of a block mapping can be left out. -/
def blockStops : List Token := [.key, .value, .blockEnd]

mutual

/-- Reads a node. Block collections have to be allowed. A sequence that is not indented starts with
the dash of its first item. -/
def read (block loose : Bool) (ts : List Token) : Except YamlError (Node × Fewer ts) :=
  match ts with
  | .scalar s plain :: rest => .ok (.scalar s plain, ⟨rest, Nat.lt_succ_self _⟩)
  | .flowSequence :: rest =>
    match readFlowItem [] rest with
    | .error e => .error e
    | .ok (n, ⟨r, hr⟩) => .ok (n, ⟨r, by rw [List.length_cons]; omega⟩)
  | .flowMapping :: rest =>
    match readFlowEntry [] rest with
    | .error e => .error e
    | .ok (n, ⟨r, hr⟩) => .ok (n, ⟨r, by rw [List.length_cons]; omega⟩)
  | .blockSequence :: rest =>
    if block then
      match readItems [] rest with
      | .error e => .error e
      | .ok (n, ⟨r, hr⟩) => .ok (n, ⟨r, by rw [List.length_cons]; omega⟩)
    else .error .malformed
  | .blockMapping :: rest =>
    if block then
      match readEntries [] rest with
      | .error e => .error e
      | .ok (n, ⟨r, hr⟩) => .ok (n, ⟨r, by rw [List.length_cons]; omega⟩)
    else .error .malformed
  | .item :: rest =>
    if loose then
      match readLooseItem [] rest with
      | .error e => .error e
      | .ok (n, ⟨r, hr⟩) => .ok (n, ⟨r, by rw [List.length_cons]; omega⟩)
    else .error .malformed
  | ts => .error (refusal ts)
termination_by 6 * ts.length + 0

/-- Reads a node that is left out in front of some tokens. -/
def readOrEmpty (block loose : Bool) (stops : List Token) (ts : List Token) :
    Except YamlError (Node × Left ts) :=
  if stands stops ts then .ok (.empty, ⟨ts, Nat.le_refl _⟩)
  else
    match read block loose ts with
    | .error e => .error e
    | .ok (n, ⟨r, hr⟩) => .ok (n, ⟨r, Nat.le_of_lt hr⟩)
termination_by 6 * ts.length + 1

/-- Reads the value of an entry, from its colon on. It may be left out together with the colon. -/
def readValue (block : Bool) (stops : List Token) (ts : List Token) :
    Except YamlError (Node × Left ts) :=
  match ts with
  | .value :: rest =>
    match readOrEmpty block block stops rest with
    | .error e => .error e
    | .ok (n, ⟨r, hr⟩) => .ok (n, ⟨r, by rw [List.length_cons]; omega⟩)
  | ts => .ok (.empty, ⟨ts, Nat.le_refl _⟩)
termination_by 6 * ts.length + 2

/-- Reads an entry behind the sign of its key. -/
def readEntry (block : Bool) (stops : List Token) (ts : List Token) :
    Except YamlError ((Node × Node) × Left ts) :=
  match readOrEmpty block block (.value :: stops) ts with
  | .error e => .error e
  | .ok (key, ⟨r, hr⟩) =>
    match readValue block stops r with
    | .error e => .error e
    | .ok (value, ⟨u, hu⟩) => .ok ((key, value), ⟨u, Nat.le_trans hu hr⟩)
termination_by 6 * ts.length + 3

/-- Reads the items of a block sequence. -/
def readItems (done : List Node) (ts : List Token) : Except YamlError (Node × Fewer ts) :=
  match ts with
  | .item :: rest =>
    match readOrEmpty true false [.item, .blockEnd] rest with
    | .error e => .error e
    | .ok (n, ⟨r, hr⟩) =>
      match readItems (done ++ [n]) r with
      | .error e => .error e
      | .ok (n, ⟨u, hu⟩) => .ok (n, ⟨u, by rw [List.length_cons]; omega⟩)
  | .blockEnd :: rest => .ok (.sequence done, ⟨rest, Nat.lt_succ_self _⟩)
  | ts => .error (refusal ts)
termination_by 6 * ts.length + 4

/-- Reads the items of a sequence that is not indented, behind the dash of an item. -/
def readLooseItem (done : List Node) (ts : List Token) : Except YamlError (Node × Left ts) :=
  match readOrEmpty true false (.item :: blockStops) ts with
  | .error e => .error e
  | .ok (n, ⟨r, hr⟩) =>
    match r, hr with
    | .item :: rest, hr =>
      match readLooseItem (done ++ [n]) rest with
      | .error e => .error e
      | .ok (n, ⟨u, hu⟩) => .ok (n, ⟨u, by rw [List.length_cons] at hr; omega⟩)
    | r, hr => .ok (.sequence (done ++ [n]), ⟨r, hr⟩)
termination_by 6 * ts.length + 4

/-- Reads the entries of a block mapping. -/
def readEntries (done : List (Node × Node)) (ts : List Token) :
    Except YamlError (Node × Fewer ts) :=
  match ts with
  | .key :: rest =>
    match readEntry true blockStops rest with
    | .error e => .error e
    | .ok (entry, ⟨r, hr⟩) =>
      match readEntries (done ++ [entry]) r with
      | .error e => .error e
      | .ok (n, ⟨u, hu⟩) => .ok (n, ⟨u, by rw [List.length_cons]; omega⟩)
  | .blockEnd :: rest => .ok (ofEntries done, ⟨rest, Nat.lt_succ_self _⟩)
  | ts => .error (refusal ts)
termination_by 6 * ts.length + 4

/-- Reads the items of a flow sequence, where an item or its end can stand. An item may be a mapping
of one entry. -/
def readFlowItem (done : List Node) (ts : List Token) : Except YamlError (Node × Fewer ts) :=
  match ts with
  | .flowSequenceEnd :: rest => .ok (.sequence done, ⟨rest, Nat.lt_succ_self _⟩)
  | .key :: rest =>
    match readEntry false [.comma, .flowSequenceEnd] rest with
    | .error e => .error e
    | .ok (entry, ⟨r, hr⟩) =>
      match readMoreItems (done ++ [ofEntries [entry]]) r with
      | .error e => .error e
      | .ok (n, ⟨u, hu⟩) => .ok (n, ⟨u, by rw [List.length_cons]; omega⟩)
  | ts =>
    match read false false ts with
    | .error e => .error e
    | .ok (n, ⟨r, hr⟩) =>
      match readMoreItems (done ++ [n]) r with
      | .error e => .error e
      | .ok (n, ⟨u, hu⟩) => .ok (n, ⟨u, by omega⟩)
termination_by 6 * ts.length + 4

/-- Reads the items of a flow sequence behind an item. -/
def readMoreItems (done : List Node) (ts : List Token) : Except YamlError (Node × Fewer ts) :=
  match ts with
  | .flowSequenceEnd :: rest => .ok (.sequence done, ⟨rest, Nat.lt_succ_self _⟩)
  | .comma :: rest =>
    match readFlowItem done rest with
    | .error e => .error e
    | .ok (n, ⟨r, hr⟩) => .ok (n, ⟨r, by rw [List.length_cons]; omega⟩)
  | ts => .error (refusal ts)
termination_by 6 * ts.length + 5

/-- Reads the entries of a flow mapping, where an entry or its end can stand. -/
def readFlowEntry (done : List (Node × Node)) (ts : List Token) :
    Except YamlError (Node × Fewer ts) :=
  match ts with
  | .flowMappingEnd :: rest => .ok (ofEntries done, ⟨rest, Nat.lt_succ_self _⟩)
  | .key :: rest =>
    match readEntry false [.comma, .flowMappingEnd] rest with
    | .error e => .error e
    | .ok (entry, ⟨r, hr⟩) =>
      match readMoreEntries (done ++ [entry]) r with
      | .error e => .error e
      | .ok (n, ⟨u, hu⟩) => .ok (n, ⟨u, by rw [List.length_cons]; omega⟩)
  | ts =>
    match read false false ts with
    | .error e => .error e
    | .ok (n, ⟨r, hr⟩) =>
      match readMoreEntries (done ++ [(n, .empty)]) r with
      | .error e => .error e
      | .ok (n, ⟨u, hu⟩) => .ok (n, ⟨u, by omega⟩)
termination_by 6 * ts.length + 4

/-- Reads the entries of a flow mapping behind an entry. -/
def readMoreEntries (done : List (Node × Node)) (ts : List Token) :
    Except YamlError (Node × Fewer ts) :=
  match ts with
  | .flowMappingEnd :: rest => .ok (ofEntries done, ⟨rest, Nat.lt_succ_self _⟩)
  | .comma :: rest =>
    match readFlowEntry done rest with
    | .error e => .error e
    | .ok (n, ⟨r, hr⟩) => .ok (n, ⟨r, by rw [List.length_cons]; omega⟩)
  | ts => .error (refusal ts)
termination_by 6 * ts.length + 5

end

/-- The end of the file, behind its document. Another document is refused. -/
def expectEnd (n : Node) (ts : List Token) : Except YamlError (Option Node) :=
  match ts.dropWhile (· == .documentEnd) with
  | .streamEnd :: _ => .ok (some n)
  | rest => .error (refusal rest)

/-- The node of a file of one document. There is none in an empty file. -/
def ofTokens (ts : List Token) : Except YamlError (Option Node) :=
  match ts with
  | .streamEnd :: _ => .ok none
  | .documentStart :: rest =>
    match readOrEmpty true false [.documentStart, .documentEnd, .streamEnd] rest with
    | .error e => .error e
    | .ok (n, ⟨r, _⟩) => expectEnd n r
  | ts =>
    match read true false ts with
    | .error e => .error e
    | .ok (n, ⟨r, _⟩) => expectEnd n r

end Node

end PageCompiler.Yaml
