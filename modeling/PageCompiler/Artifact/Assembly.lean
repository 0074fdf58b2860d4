import PageCompiler.Artifact.Basic
import PageCompiler.Artifact.Directive
import PageCompiler.Json.Text
import PageCompiler.Markup.Css
import PageCompiler.Text.Lines

/-!
# `PageCompiler.Artifact.Assembly`: from fragments to an artifact

The fragments of a document are put into one markup, in order. The script declares the state and
the handlers that this markup refers to. The style holds the base rules and those of every pattern
in use, each once.

State comes from the title, from the declarations of the document, from the fragments, and last
from the bindings and loops of the markup. The first value for a name stays.
-/

set_option autoImplicit false

namespace PageCompiler

open Text

/-- A declared type that is no name: a list or a map in the place of a word. -/
inductive KindError where
  | list
  | map
  deriving DecidableEq, Repr

/-- What is said about a declared type that is no name. -/
def KindError.message : KindError → String
  | .list => "unhashable type: 'list'"
  | .map => "unhashable type: 'dict'"

namespace Assembly

/-- The style of every page. -/
def baseStyle : String :=
  Markup.styleSheet
    [⟨"body",
      [("font-family", "-apple-system, BlinkMacSystemFont, 'Segoe UI', Roboto, sans-serif"),
       ("background", "#0a0a0a"), ("color", "#ffffff"), ("margin", "0"), ("padding", "20px")]⟩,
     ⟨".app-container", [("max-width", "800px"), ("margin", "0 auto")]⟩,
     ⟨".component",
      [("background", "#1a1a1a"), ("border", "1px solid #333"), ("border-radius", "8px"),
       ("padding", "20px"), ("margin", "20px 0")]⟩,
     ⟨".btn, button",
      [("background", "#00ff88"), ("color", "#000"), ("border", "none"), ("padding", "12px 24px"),
       ("border-radius", "4px"), ("cursor", "pointer"), ("font-weight", "500"),
       ("font-size", "16px")]⟩,
     ⟨"button:disabled", [("opacity", "0.5"), ("cursor", "not-allowed")]⟩,
     ⟨".btn-secondary", [("background", "#333"), ("color", "#fff")]⟩,
     ⟨".component-pending", [("opacity", "0.6"), ("font-style", "italic")]⟩,
     ⟨"h1", [("color", "#00ff88"), ("text-align", "center"), ("margin-bottom", "30px")]⟩,
     ⟨"h2, h3", [("color", "#00ff88"), ("margin-bottom", "15px")]⟩]

/-- What stands for a component that nothing could render (`placeholder_fragment`). -/
def placeholder (c : Component) : Fragment :=
  { component := c.name,
    markup := "<p class=\"component-pending\">Component type '" ++ Markup.escape c.kind ++
      "' not yet implemented</p>",
    source := .placeholder, patternId := none, state := [] }

/-- The lines of a text further in. Blank lines become empty. Line feeds at the ends are left
out. -/
def indentLines (margin : String) (s : String) : List String :=
  let isFeed (c : Char) : Bool := c == '\n'
  (lines (dropRightWhile isFeed (s.toList.dropWhile isFeed))).map fun line =>
    if allBlank line then "" else margin ++ String.ofList line

/-- The lines of a fragment in the markup of a page. -/
def fragmentLines (f : Fragment) : List String :=
  let name := Markup.escape f.component
  let source := if f.source == .fallback then " data-source=\"fallback\"" else ""
  ("    <div class=\"component " ++ name ++ "\" data-component=\"" ++ name ++ "\"" ++ source ++
      ">") ::
    indentLines "      " f.markup ++ ["    </div>"]

/-- The markup of a page (`build_markup`). -/
def markup (fragments : List Fragment) : String :=
  "\n".intercalate
    (["<div id=\"app\">", "  <div class=\"app-container\">",
      "    <h1>" ++ Markup.mustache "appTitle" ++ "</h1>"] ++
      fragments.flatMap fragmentLines ++ ["  </div>", "</div>"])

/-- The value that a declared type starts from, if the type is one of those known. -/
def startValue? (kind : String) : Option Value :=
  if ["array", "list"].contains kind then some (.list [])
  else if ["object", "map"].contains kind then some (.map [])
  else if ["number", "integer", "int", "float"].contains kind then some (.int 0)
  else if ["boolean", "bool"].contains kind then some (.bool false)
  else none

/-- The value that declared state starts from (`state_default`). A map may give it as its default,
or else by its type. Anything else is the value itself. -/
def startValue (declaration : Value) : Except KindError Value :=
  match declaration with
  | .map fields =>
    match Assoc.get? fields "default" with
    | some v => .ok v
    | none =>
      match Assoc.get? fields "type" with
      | none => .ok declaration
      | some (.list _) => .error .list
      | some (.map _) => .error .map
      | some (.text kind) => .ok ((startValue? kind).getD (.text ""))
      | some _ => .ok (.text "")
  | v => .ok v

/-- Adds a value under a name that has none yet. -/
def addDefault (state : Fields) (name : String) (v : Value) : Fields :=
  if Assoc.has state name then state else Assoc.insert state name v

/-- The block whose members are state of their own. -/
def stateContainer : String := "app_state"

/-- The state that a block of declarations adds. -/
def declareBlock (state : Fields) (c : Component) : Except KindError Fields :=
  if c.name == stateContainer then
    c.properties.foldlM (fun state (name, v) => return addDefault state name (← startValue v)) state
  else return addDefault state c.name (← startValue (.map c.properties))

/-- The state that a document declares (`declared_state`). -/
def declaredState (d : Document) : Except KindError Fields :=
  match d.section? "data_model" with
  | none => .ok []
  | some s => do
    let state ← s.properties.foldlM
      (fun state (name, v) => return Assoc.insert state name (← startValue v)) []
    s.components.foldlM declareBlock state

/-- The state of a page. -/
def state (d : Document) (fragments : List Fragment) (markup : String) :
    Except KindError Fields := do
  let declared ← declaredState d
  let fixed := declared ++ fragments.flatMap Fragment.state
  let bound := (Directive.models markup).map fun name => (name, Value.text "")
  let looped := (Directive.loops markup).map fun name => (name, Value.list [])
  return (fixed ++ bound ++ looped).foldl (fun state (name, v) => addDefault state name v)
    [("appTitle", .text d.title)]

/-- The handlers that a document describes, with their descriptions on one line. -/
def handlerDescriptions (d : Document) : Assoc String :=
  match d.section? "user_interactions" with
  | none => []
  | some s => s.components.filterMap fun (c : Component) =>
    match Assoc.get? c.properties "description" with
    | some (.text t) =>
      if allBlank t.toList then none
      else some (c.name, String.ofList (" ".toList.intercalate (fields t.toList)))
    | _ => none

/-- The lines of a handler that only reports its call. -/
def handlerStub (descriptions : Assoc String) (name : String) : List String :=
  let comment :=
    match Assoc.get? descriptions name with
    | some text => ["    // " ++ text]
    | none => []
  comment ++
    ["    " ++ name ++ "(...args) \x7b",
     "      console.debug(" ++ Json.quote true ("[apml] " ++ name) ++ ", ...args);",
     "    \x7d,"]

/-- The lines of the methods of a page: a stub for every handler that is neither given nor state,
then the methods that are given. -/
def methodLines (d : Document) (state : Fields) (markup given : String) : List String :=
  let provided := Directive.methods given
  let missing := (Directive.handlers markup).filter fun name =>
    !provided.contains name && !Assoc.has state name
  let stubs := missing.flatMap (handlerStub (handlerDescriptions d))
  if allBlank given.toList then stubs else stubs ++ indentLines "    " given

/-- The script of a page (`build_script`). -/
def script (d : Document) (fragments : List Fragment) (markup given : String) :
    Except KindError String := do
  let state ← state d fragments markup
  let data := state.map fun (name, v) => "      " ++ name ++ ": " ++ Json.literal v ++ ","
  return "\n".intercalate
    ([Artifact.runtimeHeader Artifact.runtime, "const \x7b createApp \x7d = Vue;", "",
      "createApp(\x7b", "  data() \x7b", "    return \x7b"] ++
      data ++
      ["    \x7d;", "  \x7d,", "  methods: \x7b"] ++
      methodLines d state markup given ++
      ["  \x7d,", "\x7d).mount('#app');"])

/-- Adds a block of style that is not there yet. -/
def addStyle (blocks : List String) (style : String) : List String :=
  if style.isEmpty || blocks.contains style then blocks else blocks ++ [style]

/-- The style of a page (`build_style`). -/
def style (r : Registry) (fragments : List Fragment) (given : String) : String :=
  let ofPattern (f : Fragment) : Option String :=
    (f.patternId.bind r.get?).map Pattern.style
  let blocks := (fragments.filterMap ofPattern ++ [trimmed given]).foldl addStyle [baseStyle]
  "\n\n".intercalate blocks

end Assembly

/-- Puts fragments together into an artifact (`assemble_artifact`). -/
def Artifact.assemble (d : Document) (fragments : List Fragment) (strategy : Strategy)
    (degraded : Bool) (unresolved : List String) (r : Registry) (givenMethods givenStyle : String) :
    Except KindError Artifact := do
  let markup := Assembly.markup fragments
  let script ← Assembly.script d fragments markup givenMethods
  return { title := d.title, markup, script, style := Assembly.style r fragments givenStyle,
           degraded, strategyUsed := strategy, unresolved }

end PageCompiler
