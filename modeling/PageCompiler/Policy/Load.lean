import PageCompiler.Policy.Basic
import PageCompiler.Text.Lines
import PageCompiler.Text.Mark
import PageCompiler.Text.Search
import PageCompiler.Yaml.Reader

/-!
# `PageCompiler.Policy.Load`: policies from files

A policy file gives a runtime marker and two tables of aliases, all of them optional. Tables map
texts to texts. A file is refused if the target of an alias is empty or an alias itself, because
applying such a policy twice would rename again.
-/

set_option autoImplicit false

namespace PageCompiler

open Text

/-- Why a policy file is refused. -/
inductive PolicyFileError where
  | notFound
  | notYaml
  | badScalar (e : Yaml.BadScalar)
  | notMapping
  | badSchema
  | badIdentifierAlias (old target : String)
  | badClassAlias (old target : String)
  deriving DecidableEq, Repr

/-- What is said about a policy file that is refused. -/
def PolicyFileError.message (path : String) : PolicyFileError → String
  | .notFound => "Policy file not found: " ++ path
  | .notYaml => "Invalid YAML in policy file: " ++ path
  | .badScalar e => e.message
  | .notMapping => "Policy file must contain a mapping: " ++ path
  | .badSchema => "Invalid policy schema: " ++ path
  | .badIdentifierAlias old target =>
    "Invalid identifier alias '" ++ old ++ "' -> '" ++ target ++ "' in " ++ path
  | .badClassAlias old target =>
    "Invalid class alias '" ++ old ++ "' -> '" ++ target ++ "' in " ++ path

namespace Policy

/-- A text that can be a runtime marker. -/
def isMarker (s : String) : Bool :=
  match after? "vue@".toList s.toList with
  | some version => !version.isEmpty && version.all isMarkChar
  | none => false

/-- A table of texts by text. -/
def table? : Yaml → Option (Assoc String)
  | .map entries => entries.mapM fun
    | (some key, .text value) => some (key, value)
    | _ => none
  | _ => none

/-- A policy with one entry of a file put in. -/
def setField? (p : Policy) (key : Option String) (value : Yaml) : Option Policy :=
  match key with
  | some "runtime_marker" =>
    match value with
    | .text s => if isMarker s then some { p with runtimeMarker := s } else none
    | _ => none
  | some "identifier_aliases" =>
    (table? value).map fun t => { p with identifierAliases := t }
  | some "class_aliases" => (table? value).map fun t => { p with classAliases := t }
  | _ => none

/-- The policy without any entry. -/
def blank : Policy :=
  { runtimeMarker := "vue@3", identifierAliases := [], classAliases := [] }

/-- The policy of the entries of a file. -/
def ofEntries? (entries : List (Option String × Yaml)) : Option Policy :=
  entries.foldlM (fun p (key, value) => setField? p key value) blank

/-- The first alias whose target would be renamed again. -/
def badTarget? (p : Policy) : Option PolicyFileError :=
  let identifier := p.identifierAliases.find? fun (_, target) =>
    target.isEmpty || Assoc.has p.identifierAliases target
  let class_ := p.classAliases.find? fun (_, target) =>
    let tokens := fields target.toList
    tokens.isEmpty || tokens.any fun t => Assoc.has p.classAliases (String.ofList t)
  match identifier, class_ with
  | some (old, target), _ => some (.badIdentifierAlias old target)
  | none, some (old, target) => some (.badClassAlias old target)
  | none, none => none

/-- Reads the content of a policy file, which is missing if there is no file (`load_policy`). -/
def load (content : Option String) : Except PolicyFileError Policy :=
  match content with
  | none => .error .notFound
  | some text =>
    match Yaml.read (String.ofList (plainLines text.toList)) with
    | .error .malformed => .error .notYaml
    | .error (.scalar e) => .error (.badScalar e)
    | .ok (.map entries) =>
      match ofEntries? entries with
      | none => .error .badSchema
      | some p =>
        match p.badTarget? with
        | some e => .error e
        | none => .ok p
    | .ok _ => .error .notMapping

end Policy

end PageCompiler
