import PageCompiler.Proofs.Artifact.Script
import PageCompiler.Proofs.Distinct

/-!
# `PageCompiler.Proofs.Artifact.References`: a script accounts for every reference once

The state of a page has five sources, and for a name that several of them give the first one counts.
The steps that build the state ask whether a name is there already, once within the declarations of
a document and once more for all sources. Both come to the same as one list of all candidates in
which the first entry for a name is kept (`state_eq`).

From there the keys of the state are the names of the candidates without repetitions
(`keys_merged`), and its values are what is found first (`get?_merged`). The handlers that are left
get a stub each (`script_accounts_for_references`).
-/

set_option autoImplicit false

namespace PageCompiler.Assembly

open Text Directive

/-! ### The first entry for a name -/

/-- State with entries added for the names that have no value yet. -/
def withDefaults (state entries : Fields) : Fields :=
  entries.foldl (fun state (name, v) => addDefault state name v) state

theorem withDefaults_append (state entries rest : Fields) :
    withDefaults state (entries ++ rest) = withDefaults (withDefaults state entries) rest :=
  List.foldl_append

theorem withDefaults_concat (state entries : Fields) (name : String) (v : Value) :
    withDefaults state (entries ++ [(name, v)]) = addDefault (withDefaults state entries) name v :=
  withDefaults_append state entries [(name, v)]

/-- What is there stays in front. -/
theorem prefix_withDefaults (state entries : Fields) : state <+: withDefaults state entries := by
  induction entries using List.reverseRecOn with
  | nil => exact List.prefix_rfl
  | append_singleton entries e ih =>
    obtain ⟨name, v⟩ := e
    rw [withDefaults_concat, addDefault_eq]
    split
    · exact ih
    · exact ih.trans (List.prefix_append _ _)

/-- The first entry for each name. -/
def merged (entries : Fields) : Fields :=
  withDefaults [] entries

theorem merged_concat (entries : Fields) (name : String) (v : Value) :
    merged (entries ++ [(name, v)]) = addDefault (merged entries) name v :=
  withDefaults_concat [] entries name v

theorem keys_concat (entries : Fields) (name : String) (v : Value) :
    Assoc.keys (entries ++ [(name, v)]) = Assoc.keys entries ++ [name] := by
  rw [Assoc.keys, List.map_append]
  rfl

/-- A default puts a new name last. -/
theorem keys_addDefault (state : Fields) (name : String) (v : Value) :
    Assoc.keys (addDefault state name v) =
      if name ∈ Assoc.keys state then Assoc.keys state else Assoc.keys state ++ [name] := by
  rw [addDefault_eq]
  split
  · rfl
  · exact keys_concat state name v

/-- A default counts only where nothing was declared. -/
theorem get?_addDefault (state : Fields) (name : String) (v : Value) (key : String) :
    Assoc.get? (addDefault state name v) key =
      (Assoc.get? state key).or (Assoc.get? [(name, v)] key) := by
  rw [addDefault_eq]
  split
  next hname =>
    -- The entry could only be asked for its own name, which is found before.
    by_cases hkey : name = key
    · rw [← Assoc.has_iff, hkey] at hname
      cases hget : Assoc.get? state key with
      | none =>
        rw [Assoc.get?_eq_none_iff, hname] at hget
        cases hget
      | some w => rfl
    · rw [Assoc.get?_cons, if_neg hkey]
      exact Option.or_none.symm
  next => rw [Assoc.get?_append]

/-- Every name is kept, in the order in which the names come first. -/
theorem keys_merged (entries : Fields) :
    Assoc.keys (merged entries) = (Assoc.keys entries).eraseDups := by
  induction entries using List.reverseRecOn with
  | nil => rfl
  | append_singleton entries e ih =>
    obtain ⟨name, v⟩ := e
    rw [merged_concat, keys_addDefault, ih, keys_concat, eraseDups_concat]
    simp only [List.mem_eraseDups]

/-- A name has the value that it has first. -/
theorem get?_merged (entries : Fields) (key : String) :
    Assoc.get? (merged entries) key = Assoc.get? entries key := by
  induction entries using List.reverseRecOn with
  | nil => rfl
  | append_singleton entries e ih =>
    obtain ⟨name, v⟩ := e
    rw [merged_concat, get?_addDefault, ih, Assoc.get?_append]

theorem nodup_keys_merged (entries : Fields) : (Assoc.keys (merged entries)).Nodup := by
  rw [keys_merged]
  exact nodup_eraseDups _

theorem mem_merged_iff {entries : Fields} {key : String} {v : Value} :
    (key, v) ∈ merged entries ↔ Assoc.get? entries key = some v := by
  rw [← Assoc.get?_eq_some_iff (nodup_keys_merged entries), get?_merged]

/-- The first entry of all stays the first. -/
theorem head?_merged (e : String × Value) (entries : Fields) :
    (merged (e :: entries)).head? = some e := by
  obtain ⟨rest, hrest⟩ := prefix_withDefaults [e] entries
  show (withDefaults [e] entries).head? = some e
  rw [← hrest]
  rfl

/-- Nothing is left out where no name is repeated. -/
theorem merged_of_nodup {entries : Fields} (h : (Assoc.keys entries).Nodup) :
    merged entries = entries := by
  induction entries using List.reverseRecOn with
  | nil => rfl
  | append_singleton entries e ih =>
    obtain ⟨name, v⟩ := e
    rw [keys_concat, ← List.concat_eq_append, List.nodup_concat] at h
    rw [merged_concat, ih h.2, addDefault_eq, if_neg h.1]

/-- It makes no difference whether repetitions are left out before entries are added. -/
theorem withDefaults_merged (state entries : Fields) :
    withDefaults state (merged entries) = withDefaults state entries := by
  -- The last entry is either left out on both sides or added on both.
  induction entries using List.reverseRecOn with
  | nil => rfl
  | append_singleton entries e ih =>
    obtain ⟨name, v⟩ := e
    rw [merged_concat, withDefaults_concat, addDefault_eq (merged entries)]
    split
    next hname =>
      rw [keys_merged, List.mem_eraseDups] at hname
      have hkept : name ∈ Assoc.keys (withDefaults state entries) :=
        mem_keys_foldl_addDefault.2 (.inr hname)
      rw [ih, addDefault_eq, if_pos hkept]
    next => rw [withDefaults_concat, ih]

/-! ### Where state comes from -/

/-- Declarations with the values that they start from. -/
def started (declarations : Fields) : Except KindError Fields :=
  declarations.mapM fun (name, v) => return (name, ← startValue v)

/-- What a block of the data model declares: itself, or as the container of state its members. -/
def blockDeclarations (c : Component) : Fields :=
  if c.name == stateContainer then c.properties else [(c.name, .map c.properties)]

/-- What a document declares: the properties of its data model, then what the blocks there
declare. -/
def declarations (d : Document) : Except KindError Fields :=
  match d.section? "data_model" with
  | none => .ok []
  | some s => do
    let own ← started s.properties
    let blocks ← started (s.components.flatMap blockDeclarations)
    return Assoc.ofPairs own ++ blocks

/-- All that may give a member of the state its value, from the first that is asked to the last. -/
def candidates (d : Document) (declared : Fields) (fragments : List Fragment) (markup : String) :
    Fields :=
  ("appTitle", .text d.title) :: (declared ++ fragments.flatMap Fragment.state ++
    (models markup).map (fun name => (name, .text "")) ++
    (loops markup).map fun name => (name, .list []))

/-- Declarations are added one after another as soon as each has its value. -/
theorem foldlM_startValue (add : Fields → String → Value → Fields) (entries state : Fields) :
    entries.foldlM (fun state (name, v) => return add state name (← startValue v)) state = do
      let pairs ← started entries
      return pairs.foldl (fun state (name, v) => add state name v) state := by
  induction entries generalizing state with
  | nil => rfl
  | cons e entries ih =>
    rw [started, List.foldlM_cons, List.mapM_cons, ← started]
    simp only [bind_assoc, pure_bind, ih, List.foldl_cons]

/-- A block declares its members, or itself. -/
theorem declareBlock_eq (state : Fields) (c : Component) :
    declareBlock state c = do
      let pairs ← started (blockDeclarations c)
      return withDefaults state pairs := by
  unfold declareBlock blockDeclarations
  split
  · exact foldlM_startValue addDefault c.properties state
  · simp [started, withDefaults]

theorem started_append (entries rest : Fields) :
    started (entries ++ rest) = do
      let pairs ← started entries
      let others ← started rest
      return pairs ++ others :=
  List.mapM_append

theorem foldlM_declareBlock (blocks : List Component) (state : Fields) :
    blocks.foldlM declareBlock state = do
      let pairs ← started (blocks.flatMap blockDeclarations)
      return withDefaults state pairs := by
  induction blocks generalizing state with
  | nil => rfl
  | cons c blocks ih =>
    rw [List.foldlM_cons, List.flatMap_cons, started_append, declareBlock_eq]
    simp only [bind_assoc, pure_bind, ih, withDefaults_append]

/-- The state that a document declares is what it declares, with the first value for each name. -/
theorem declaredState_eq (d : Document) :
    declaredState d = do
      let declared ← declarations d
      return merged declared := by
  unfold declaredState declarations
  cases d.section? "data_model" with
  | none => rfl
  | some s =>
    simp only [foldlM_startValue, foldlM_declareBlock, bind_assoc, pure_bind]
    refine bind_congr fun own => bind_congr fun blocks => congrArg pure ?_
    -- Properties have different names, so the first entry for each is the only one.
    rw [merged, withDefaults_append, ← merged, merged_of_nodup (Assoc.nodup_keys_ofPairs own)]
    rfl

/-- The state of a page has the first value for each name. -/
theorem state_eq (d : Document) (fragments : List Fragment) (markup : String) :
    state d fragments markup = do
      let declared ← declarations d
      return merged (candidates d declared fragments markup) := by
  rw [state, declaredState_eq]
  simp only [bind_assoc, pure_bind]
  refine bind_congr fun declared => congrArg pure ?_
  -- Only the declarations are merged before they are added.
  show withDefaults [("appTitle", .text d.title)] (merged declared ++ _ ++ _ ++ _) =
    withDefaults [("appTitle", .text d.title)] (declared ++ _ ++ _ ++ _)
  simp only [withDefaults_append, withDefaults_merged]

/-! ### The script -/

/-- The lines of a stub: what is said about a handler, if anything, and a method of its name that
reports each call. -/
def stubLines (description : Option String) (name : String) : List String :=
  (description.map fun text => "    // " ++ text).toList ++
    ["    " ++ name ++ "(...args) \x7b",
     "      console.debug(" ++ Json.quote true ("[apml] " ++ name) ++ ", ...args);",
     "    \x7d,"]

theorem handlerStub_eq (descriptions : Assoc String) (name : String) :
    handlerStub descriptions name = stubLines (Assoc.get? descriptions name) name := by
  unfold handlerStub stubLines
  cases Assoc.get? descriptions name <;> rfl

/-- The script of a page with the given members in its state, and with stubs for some handlers in
front of the methods that are given. -/
def scriptText (d : Document) (data : Fields) (stubs : List String) (given : String) : String :=
  "\n".intercalate
    ([Artifact.runtimeHeader Artifact.runtime, "const \x7b createApp \x7d = Vue;", "",
      "createApp(\x7b", "  data() \x7b", "    return \x7b"] ++
      data.map (fun (name, v) => "      " ++ name ++ ": " ++ Json.literal v ++ ",") ++
      ["    \x7d;", "  \x7d,", "  methods: \x7b"] ++
      stubs.flatMap (fun name => stubLines (Assoc.get? (handlerDescriptions d) name) name) ++
      (if allBlank given.toList then [] else indentLines "    " given) ++
      ["  \x7d,", "\x7d).mount('#app');"])

/-- The handlers that are neither given nor state, each once. -/
def missingHandlers (data : Fields) (markup given : String) : List String :=
  (handlers markup).filter fun name => !(methods given).contains name && !Assoc.has data name

/-- Stubs for missing handlers stand in front of given methods. -/
theorem methodLines_eq (d : Document) (data : Fields) (markup given : String) :
    methodLines d data markup given =
      (missingHandlers data markup given).flatMap (handlerStub (handlerDescriptions d)) ++
        if allBlank given.toList then [] else indentLines "    " given := by
  unfold methodLines missingHandlers
  split
  · exact (List.append_nil _).symm
  · rfl

/-- How a script is put together. -/
theorem script_eq (d : Document) (fragments : List Fragment) (markup given : String) :
    script d fragments markup given = do
      let declared ← declarations d
      let data := merged (candidates d declared fragments markup)
      return scriptText d data (missingHandlers data markup given) given := by
  have hstubs : handlerStub (handlerDescriptions d) = _ :=
    funext (handlerStub_eq (handlerDescriptions d))
  rw [script, state_eq]
  simp only [bind_assoc, pure_bind, methodLines_eq, hstubs, scriptText, List.append_assoc]

/-- The handlers that markup calls and neither methods nor state declare. -/
theorem mem_missingHandlers {data : Fields} {markup given name : String} :
    name ∈ missingHandlers data markup given ↔
      name ∈ findAll handler markup.toList ∧ name ∉ methods given ∧ name ∉ Assoc.keys data := by
  rw [missingHandlers, List.mem_filter, handlers, List.mem_eraseDups, ← Assoc.has_iff]
  simp

/-- Handlers come in the order in which the markup calls them first. -/
theorem pairwise_missingHandlers (data : Fields) (markup given : String) :
    (missingHandlers data markup given).Pairwise fun x y =>
      (findAll handler markup.toList).idxOf x < (findAll handler markup.toList).idxOf y :=
  (pairwise_idxOf_eraseDups _).filter _

/-- A script accounts for every reference once. It is written if every declaration has a value to
start from. Its state has each name once, the title first, and each name has the value that comes
first among the candidates. What the markup binds and loops over is state. A handler has a stub
exactly if it is neither given nor state. There is one stub for each, in the order in which the
markup calls the handlers first. -/
theorem script_accounts_for_references (d : Document) (fragments : List Fragment)
    (markup given : String) :
    (∀ e, declarations d = .error e → script d fragments markup given = .error e) ∧
    ∀ declared, declarations d = .ok declared → ∃ data stubs,
      script d fragments markup given = .ok (scriptText d data stubs given) ∧
      (Assoc.keys data).Nodup ∧
      data.head? = some ("appTitle", .text d.title) ∧
      (∀ key v, (key, v) ∈ data ↔
        Assoc.get? (candidates d declared fragments markup) key = some v) ∧
      (∀ name, name ∈ models markup ∨ name ∈ loops markup → name ∈ Assoc.keys data) ∧
      stubs.Nodup ∧
      (∀ name, name ∈ stubs ↔
        name ∈ findAll handler markup.toList ∧ name ∉ methods given ∧ name ∉ Assoc.keys data) ∧
      stubs.Pairwise fun x y =>
        (findAll handler markup.toList).idxOf x < (findAll handler markup.toList).idxOf y := by
  refine ⟨fun e he => by rw [script_eq, he]; rfl, fun declared hdeclared => ?_⟩
  refine ⟨merged (candidates d declared fragments markup), missingHandlers _ markup given,
    by rw [script_eq, hdeclared]; rfl, nodup_keys_merged _, head?_merged _ _,
    fun key v => mem_merged_iff, fun name hname => ?_, (nodup_eraseDups _).filter _,
    fun name => mem_missingHandlers, pairwise_missingHandlers _ _ _⟩
  rw [keys_merged, List.mem_eraseDups, candidates]
  rcases hname with hname | hname
  · simp [Assoc.keys, hname]
  · simp [Assoc.keys, hname]

/-- A property goes before a member of the container of state, and both before a binding. Of four
handlers one is given and one is state. The other two have a stub each, though one is called
twice. -/
theorem script_accounts_for_references_container :
    let container : Component :=
      ⟨stateContainer, none, [("count", .int 9), ("ready", .bool true)], "", "data_model", 1⟩
    let count := ("count", .map [("type", .text "int")])
    let d : Document := ⟨[], [⟨"data_model", [container], [count]⟩]⟩
    let markup := "<p v-model=\"ready\" @click=\"ready\" @blur=\"send()\" @focus=\"save\"" ++
      " @input=\"load\" @change=\"save\">"
    let given := "send() \x7b \x7d,"
    ∃ data stubs, script d [] markup given = .ok (scriptText d data stubs given) ∧
      ("count", .int 0) ∈ data ∧ ("ready", .bool true) ∈ data ∧
      "save" ∈ stubs ∧ "load" ∈ stubs ∧ "send" ∉ stubs ∧ "ready" ∉ stubs ∧
      script d [] markup given = .ok ("\n".intercalate
        ["/* runtime: vue@3 */", "const \x7b createApp \x7d = Vue;", "", "createApp(\x7b",
         "  data() \x7b", "    return \x7b", "      appTitle: \"Generated App\",",
         "      count: 0,", "      ready: true,", "    \x7d;", "  \x7d,", "  methods: \x7b",
         "    save(...args) \x7b", "      console.debug(\"[apml] save\", ...args);", "    \x7d,",
         "    load(...args) \x7b", "      console.debug(\"[apml] load\", ...args);", "    \x7d,",
         "    send() \x7b \x7d,", "  \x7d,", "\x7d).mount('#app');"]) := by
  intro container count d markup given
  let declared : Fields := [("count", .int 0), ("count", .int 9), ("ready", .bool true)]
  obtain ⟨data, stubs, hscript, -, -, hdata, -, -, hstubs, -⟩ :=
    (script_accounts_for_references d [] markup given).2 declared rfl
  have hready : ("ready", .bool true) ∈ data := (hdata _ _).2 rfl
  have hnotState : ∀ name, Assoc.has (candidates d declared [] markup) name = false →
      name ∉ Assoc.keys data := by
    intro name hnone hkey
    obtain ⟨⟨_, v⟩, he, rfl⟩ := List.mem_map.1 hkey
    have hsome := (hdata _ v).1 he
    rw [Assoc.get?_eq_none_iff.2 hnone] at hsome
    cases hsome
  refine ⟨data, stubs, hscript, (hdata _ _).2 rfl, hready, ?_, ?_, ?_, ?_, ?_⟩
  · exact (hstubs _).2
      ⟨by decide +kernel, by decide +kernel, hnotState "save" (by decide +kernel)⟩
  · exact (hstubs _).2
      ⟨by decide +kernel, by decide +kernel, hnotState "load" (by decide +kernel)⟩
  · exact fun hmem => ((hstubs _).1 hmem).2.1 (by decide +kernel)
  · exact fun hmem => ((hstubs _).1 hmem).2.2 (List.mem_map.2 ⟨_, hready, rfl⟩)
  · decide +kernel

end PageCompiler.Assembly
