import PageCompiler.Artifact.Basic
import PageCompiler.Artifact.Directive
import PageCompiler.Policy.Rename
import PageCompiler.Policy.Template

/-!
# `PageCompiler.Policy.Apply`: canonical names in an artifact

`Policy.apply` renames aliases in an artifact. Variables are renamed in the script and in the parts
of the markup that hold code: directive values and what stands between double braces. Classes are
renamed in class attributes and in the selectors of the style. The runtime marker is replaced
everywhere, and the script starts with one header that names it.

An artifact whose script declares an alias next to its canonical name is refused, because renaming
would merge two members.
-/

set_option autoImplicit false

namespace PageCompiler

open Text

/-- Why a policy cannot be applied. -/
inductive PolicyError where
  /-- Aliases that are declared next to their canonical names. -/
  | conflict (pairs : List (String × String))
  | template (e : TemplateError)
  deriving DecidableEq, Repr

/-- What is said about a policy that cannot be applied. -/
def PolicyError.message : PolicyError → String
  | .conflict pairs =>
    "Aliased names declared next to their canonical names: " ++
      ", ".intercalate (pairs.map fun (old, target) => old ++ "/" ++ target)
  | .template e => e.message

namespace Policy

/-- Characters of a runtime version. -/
def isVersionChar (c : Char) : Bool :=
  isWord c || c == '.' || c == '-'

/-- A runtime marker. -/
def marker : Recogniser Unit := fun _ s => do
  let s ← after? "vue@".toList s
  let (_, rest) ← span1? isVersionChar s
  some ((), rest)

/-- A text with every runtime marker replaced. -/
def replaceMarkers (p : Policy) (s : List Char) : List Char :=
  replaceAll marker (fun _ => p.runtimeMarker.toList) s

/-- Blanks and tabs. -/
def isSpace (c : Char) : Bool :=
  c == ' ' || c == '\t'

/-- A header that names the runtime, with the line feed behind it. -/
def header : Recogniser Unit := fun before s => do
  if !atLineStart before then none
  let s ← after? "/*".toList (s.dropWhile isSpace)
  let s ← after? "runtime:".toList (s.dropWhile isBlank)
  let s ← after? "*/".toList (s.dropWhile (· != '*'))
  let s := s.dropWhile isSpace
  some ((), (after? ['\n'] s).getD s)

/-- A script with one header in front (`with_runtime_header`). -/
def withHeader (p : Policy) (script : List Char) : List Char :=
  let body := (replaceAll header (fun _ => []) (p.replaceMarkers script)).dropWhile (· == '\n')
  (Artifact.runtimeHeader p.runtimeMarker).toList ++ '\n' :: body

/-- Characters that belong to an attribute name. -/
def isAttrChar (c : Char) : Bool :=
  isWord c || c == ':' || c == '.' || c == '-'

/-- Characters of a directive behind its mark. -/
def isDirectiveChar (c : Char) : Bool :=
  isAttrChar c || c == '[' || c == ']'

/-- What stands between quotes, and what follows the closing quote. -/
def quotedValue? (s : List Char) : Option (List Char × List Char) :=
  match s.dropWhile (· != '"') with
  | _ :: rest => some (s.takeWhile (· != '"'), rest)
  | [] => none

/-- The equals sign of an attribute up to the opening quote of its value, and what follows. -/
def equals? (s : List Char) : Option (List Char × List Char) := do
  let lead := s.takeWhile isBlank
  let s ← after? ['='] (s.dropWhile isBlank)
  let gap := s.takeWhile isBlank
  let rest ← after? ['"'] (s.dropWhile isBlank)
  some (lead ++ '=' :: gap ++ ['"'], rest)

/-- An attribute: what stands up to its opening quote, and its value. -/
def quotedAttr (name? : List Char → Option (List Char × List Char)) :
    Recogniser (List Char × List Char) := fun before s => do
  if precededBy isAttrChar before then none
  let (name, s) ← name? s
  let (eq, s) ← equals? s
  let (value, rest) ← quotedValue? s
  some ((name ++ eq, value), rest)

/-- The name of a directive. -/
def directiveName? (s : List Char) : Option (List Char × List Char) :=
  let mark : Option (List Char × List Char) :=
    match s with
    | '@' :: rest => some (['@'], rest)
    | ':' :: rest => some ([':'], rest)
    | 'v' :: '-' :: rest => some (['v', '-'], rest)
    | _ => none
  mark.map fun (m, rest) => (m ++ rest.takeWhile isDirectiveChar, rest.dropWhile isDirectiveChar)

/-- The name of the class attribute. -/
def className? (s : List Char) : Option (List Char × List Char) :=
  (after? "class".toList s).map fun rest => ("class".toList, rest)

/-- What stands between double braces. -/
def interpolation : Recogniser (List Char) := fun _ s => do
  let s ← after? ['\x7b', '\x7b'] s
  upTo? ['\x7d', '\x7d'] s

/-- Markup with the code in it changed by `f`. -/
def mapCode (f : List Char → List Char) (markup : List Char) : List Char :=
  let bound := replaceAll (quotedAttr directiveName?)
    (fun (lead, value) => lead ++ f value ++ ['"']) markup
  replaceAll interpolation (fun code => '\x7b' :: '\x7b' :: f code ++ ['\x7d', '\x7d']) bound

/-- The classes that a list of classes stands for, each once. -/
def canonicalClasses (p : Policy) (classes : List Char) : List (List Char) :=
  ((fields classes).flatMap fun token =>
    match Assoc.get? p.classAliases (String.ofList token) with
    | some target => fields target.toList
    | none => [token]).eraseDups

/-- Markup with the aliases in class attributes replaced (`rewrite_class_attributes`). -/
def renameClasses (p : Policy) (markup : List Char) : List Char :=
  if p.classAliases.isEmpty then markup
  else
    replaceAll (quotedAttr className?)
      (fun (lead, value) => lead ++ [' '].intercalate (p.canonicalClasses value) ++ ['"']) markup

/-- A class selector that is not the start of a longer one. -/
def selector (name : String) : Recogniser Unit := fun _ s => do
  let rest ← after? ('.' :: name.toList) s
  if followedBy isNameChar rest then none else some ((), rest)

/-- Style with one alias replaced. -/
def renameSelector (style : List Char) (old target : String) :
    Except TemplateError (List Char) := do
  let parts ← Template.parse ('.' :: ['.'].intercalate (fields target.toList))
  return replaceAll (selector old) (fun _ => Template.fill ('.' :: old.toList) parts) style

/-- Style with all aliases replaced, one after another (`rewrite_selectors`). -/
def renameSelectors (p : Policy) (style : List Char) : Except TemplateError (List Char) :=
  p.classAliases.foldlM (fun style (old, target) => renameSelector style old target) style

/-- The aliases that a script declares next to their canonical names (`check_conflicts`). -/
def conflicts (p : Policy) (script : String) : List (String × String) :=
  let keys := Directive.scriptKeys script
  p.identifierAliases.filter fun (old, target) => keys.contains old && keys.contains target

/-- Applies a policy to an artifact (`normalize`). -/
def apply (p : Policy) (a : Artifact) : Except PolicyError Artifact :=
  match p.conflicts a.script with
  | [] =>
    let rename := Rename.run p.identifierAliases
    let markup := p.renameClasses (mapCode rename a.markup.toList)
    let script := p.withHeader (rename a.script.toList)
    match p.renameSelectors a.style.toList with
    | .error e => .error (.template e)
    | .ok style =>
      .ok { a with
        markup := String.ofList (p.replaceMarkers markup)
        script := String.ofList script
        style := String.ofList (p.replaceMarkers style) }
  | pairs => .error (.conflict pairs)

end Policy

end PageCompiler
