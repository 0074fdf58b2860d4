import PageCompiler.Decimal.Literal
import PageCompiler.Text.Letter
import PageCompiler.Value

/-!
# `PageCompiler.Settings`: limits and services, read from the environment

Every setting has a default. A variable that is not set, cannot be read or is out of range leaves
the default in place.
-/

set_option autoImplicit false

namespace PageCompiler

open Text

/-- Variables by name. -/
abbrev Environment := Assoc String

/-- Why a variable cannot be set. -/
inductive VariableError where
  /-- The name or the value has a null character. -/
  | nullCharacter
  /-- The name has an equals sign. -/
  | badName
  | noName
  deriving DecidableEq, Repr

/-- What is said about a variable that cannot be set. -/
def VariableError.message : VariableError → String
  | .nullCharacter => "embedded null byte"
  | .badName => "illegal environment variable name"
  | .noName => "[Errno 22] Invalid argument"

/-- The first variable that cannot be set, by its fault. -/
def Environment.fault? (env : Environment) : Option VariableError :=
  env.findSome? fun (name, value) =>
    if name.contains '\x00' || value.contains '\x00' then some .nullCharacter
    else if name.contains '=' then some .badName
    else if name.isEmpty then some .noName
    else none

/-- Limits of one compilation. -/
structure CompilerSettings where
  /-- How long to wait for generated markup, in seconds. It is handed on as it is. -/
  fallbackTimeout : Value
  /-- How long to wait for a mended text, in seconds. -/
  repairTimeout : Value
  fallbackMaxTokens : Int
  repairMaxTokens : Int
  maxDocumentChars : Int
  maxFragmentChars : Int
  deriving Repr

/-- The generative service to use. -/
inductive BackendName where
  | none
  | ollama
  deriving DecidableEq, Repr

/-- The name of a service. -/
def BackendName.text : BackendName → String
  | .none => "none"
  | .ollama => "ollama"

/-- Choice and address of the generative service. -/
structure BackendSettings where
  backend : BackendName
  url : String
  model : String
  deriving DecidableEq, Repr

/-- Limits of the web interface. -/
structure ApiSettings where
  maxDocumentBytes : Int
  maxConcurrency : Int
  queueTimeout : Float
  deriving Repr

namespace Settings

/-- A positive whole number. -/
def positiveInt (env : Environment) (name : String) (default : Int) : Int :=
  match (Assoc.get? env name).bind fun s => Decimal.intSetting? s.toList with
  | some n => if 0 < n then n else default
  | none => default

/-- A positive number. -/
def positiveFloat (env : Environment) (name : String) (default : Float) : Float :=
  match (Assoc.get? env name).bind fun s => Decimal.floatSetting? s.toList with
  | some x => if 0 < x then x else default
  | none => default

/-- A number that is not negative. -/
def nonnegativeFloat (env : Environment) (name : String) (default : Float) : Float :=
  match (Assoc.get? env name).bind fun s => Decimal.floatSetting? s.toList with
  | some x => if 0 ≤ x then x else default
  | none => default

/-- A text without the white space at its ends, if something is left. -/
def textSetting (env : Environment) (name : String) (default : String) : String :=
  match Assoc.get? env name with
  | some s => if allBlank s.toList then default else trimmed s
  | none => default

end Settings

/-- The limits without an environment. -/
def CompilerSettings.default : CompilerSettings :=
  { fallbackTimeout := .float 60.0, repairTimeout := .float 30.0, fallbackMaxTokens := 4000,
    repairMaxTokens := 2000, maxDocumentChars := 12000, maxFragmentChars := 4000 }

/-- The limits that an environment sets. -/
def CompilerSettings.ofEnvironment (env : Environment) : CompilerSettings :=
  { fallbackTimeout := .float (Settings.positiveFloat env "APMLC_FALLBACK_TIMEOUT_SECONDS" 60.0),
    repairTimeout := .float (Settings.positiveFloat env "APMLC_REPAIR_TIMEOUT_SECONDS" 30.0),
    fallbackMaxTokens := Settings.positiveInt env "APMLC_FALLBACK_MAX_TOKENS" 4000,
    repairMaxTokens := Settings.positiveInt env "APMLC_REPAIR_MAX_TOKENS" 2000,
    maxDocumentChars := Settings.positiveInt env "APMLC_MAX_DOCUMENT_CONTEXT_CHARS" 12000,
    maxFragmentChars := Settings.positiveInt env "APMLC_MAX_FRAGMENT_CONTEXT_CHARS" 4000 }

/-- The generative service that an environment chooses. -/
def BackendSettings.ofEnvironment (env : Environment) : BackendSettings :=
  let chosen := ((Assoc.get? env "APMLC_FALLBACK_BACKEND").map String.toList).getD []
  { backend := if lower (trim chosen) == "ollama".toList then .ollama else .none,
    url := Settings.textSetting env "APMLC_OLLAMA_URL" "http://127.0.0.1:11434",
    model := Settings.textSetting env "APMLC_OLLAMA_MODEL" "qwen3:8b" }

/-- The limits of the web interface that an environment sets. -/
def ApiSettings.ofEnvironment (env : Environment) : ApiSettings :=
  { maxDocumentBytes := Settings.positiveInt env "APMLC_MAX_DOCUMENT_BYTES" 1048576,
    maxConcurrency := Settings.positiveInt env "APMLC_MAX_CONCURRENCY" 4,
    queueTimeout := Settings.nonnegativeFloat env "APMLC_QUEUE_TIMEOUT_SECONDS" 10.0 }

end PageCompiler
