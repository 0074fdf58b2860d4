import PageCompiler.CommandLine.Arguments
import PageCompiler.CommandLine.Outputs
import PageCompiler.Text.Lines
import PageCompiler.Text.Scan

/-!
# `PageCompiler.CommandLine.Basic`: the program on the command line

`CommandLine.run` carries out what the arguments ask for. It turns the state of the disk into the
next one and says what is printed and with which code the program ends. The code is 0 for success,
2 for arguments that ask for nothing and for a document that cannot be read, 3 for a document that
is refused, and 1 for everything else that goes wrong.

What a service brings is taken as whole characters here: a half of a character, which no file could
hold, is not followed.
-/

set_option autoImplicit false

namespace PageCompiler

open Text

/-- What the program runs with. -/
structure Terminal where
  /-- The name of the program. -/
  program : String
  environment : Environment
  /-- The compiler, for given limits. -/
  compile : CompilerSettings → String → Except CompileError Compilation

/-- What comes of a run. -/
structure Outcome where
  exitCode : Nat
  /-- What is printed. -/
  output : String
  /-- The name of an error that nothing caught. -/
  crash : Option String
  workspace : Workspace

namespace CommandLine

/-- A colour code of a terminal. -/
def colourCode : Recogniser Unit := fun _ s =>
  match s with
  | c :: '[' :: rest =>
    if c.toNat == 0x1b then
      match rest.dropWhile fun c => isAsciiDigit c || c == ';' || c == '?' with
      | d :: rest => if isAsciiLetter d then some ((), rest) else none
      | [] => none
    else none
  | _ => none

/-- A printed line, without colour codes. -/
def line (s : String) : List Char :=
  replaceAll colourCode (fun _ => []) s.toList ++ ['\n']

/-- A text in which a carriage return in front of a line feed is left out. -/
def joinReturns : List Char → List Char
  | [] => []
  | '\r' :: '\n' :: rest => '\n' :: joinReturns rest
  | c :: rest => c :: joinReturns rest

/-- Printed lines. -/
def printed (ls : List String) : String :=
  String.ofList (joinReturns (ls.flatMap line))

/-- The text of a file. -/
def sourceText (content : List UInt8) : Except Utf8.DecodeError String :=
  (Utf8.decode content).map fun cs => String.ofList (plainLines cs)

/-- Why a compilation leaves no result. -/
inductive Problem where
  /-- The file is not a text. -/
  | unreadable (e : Utf8.DecodeError)
  | compile (e : CompileError)
  | write (e : FileError)
  deriving DecidableEq, Repr

namespace Problem

/-- The name under which a problem is reported. -/
def typeName : Problem → String
  | .unreadable _ => "UnicodeDecodeError"
  | .compile e => e.typeName
  | .write e => e.typeName

/-- What is said about a problem. -/
def message : Problem → String
  | .unreadable e => e.message
  | .compile e => e.message
  | .write e => e.message

/-- What was being done. -/
def stage : Problem → String
  | .unreadable _ => "read_input"
  | .compile _ => "compile"
  | .write _ => "write_output"

/-- The code with which the program ends. -/
def exitCode : Problem → Nat
  | .compile (.malformed _) => 2
  | .compile (.rejected _ _) | .compile (.unrepairable _ _ _) => 3
  | _ => 1

/-- The line that is printed about a problem. -/
def report (p : Problem) : String :=
  match p with
  | .compile (.malformed _) => "ERROR(parse): " ++ p.message
  | .compile (.rejected _ _) | .compile (.unrepairable _ _ _) =>
    "ERROR(validation): " ++ p.message
  | .write _ => "ERROR: write output failed: " ++ p.message
  | _ => "ERROR: " ++ p.typeName ++ ": " ++ p.message

/-- The report of a problem as a record. -/
def record (p : Problem) : Fields :=
  Outputs.errorRecord p.typeName p.message p.stage
    (match p with
      | .compile e => e.detail
      | _ => [])

end Problem

/-- The lines that sum up a compilation. -/
def summary (c : Compilation) : List String :=
  let a := c.artifact
  let m := c.metrics
  ["INFO(compile): strategy=" ++ a.strategyUsed.name ++ " degraded=" ++ Json.ofBool a.degraded ++
    " rule=" ++ toString m.ruleFragments ++ " fallback=" ++ toString m.fallbackFragments ++
    " placeholders=" ++ toString m.placeholders] ++
  (if a.degraded then
    ["WARNING(fallback): degraded artifact (" ++ m.fallbackFailure.getD "None" ++ ")."] else []) ++
  (if a.unresolved.isEmpty then []
    else ["WARNING(unresolved): " ++ ", ".intercalate a.unresolved]) ++
  m.componentErrors.map fun e =>
    "WARNING(component): " ++ e.component ++ ": missing " ++ ", ".intercalate e.fields

/-- Compiles the content of a file. -/
def compileContent (t : Terminal) (content : List UInt8) : Except Problem Compilation := do
  let text ← (sourceText content).mapError .unreadable
  (t.compile (CompilerSettings.ofEnvironment t.environment) text).mapError .compile

/-- Writes the report of a problem, as far as that is possible. -/
def reportProblem (o : Outputs) (p : Problem) (w : Workspace) : Workspace :=
  ((o.writeError p.record).run.run w).2

/-- Ends with a problem. -/
def fail (o : Outputs) (p : Problem) (before : List String) (w : Workspace) : Outcome :=
  { exitCode := p.exitCode, output := printed (before ++ [p.report]), crash := none,
    workspace := reportProblem o p w }

/-- Writes a result and sums it up, or ends with the problem. -/
def finish (o : Outputs) (result : Except Problem Compilation) (before : List String)
    (w : Workspace) : Outcome :=
  match result with
  | .error p => fail o p before w
  | .ok c =>
    match (o.writeResult c).run.run w with
    | (.error e, w) => fail o (.write e) before w
    | (.ok (), w) =>
      { exitCode := 0, output := printed (before ++ summary c ++ ["INFO: success"]),
        crash := none, workspace := w }

/-- The end of a run that prints lines. -/
def prints (w : Workspace) (exitCode : Nat) (ls : List String) : Outcome :=
  { exitCode, output := printed ls, crash := none, workspace := w }

/-- The end of a run with an error that nothing caught. -/
def crashes (w : Workspace) (typeName : String) : Outcome :=
  { exitCode := 1, output := "", crash := some typeName, workspace := w }

/-- Compiles the content of a file into outputs (`compile_command`). Outputs that are there are
kept, unless `force` says otherwise. -/
def compileInto (t : Terminal) (w : Workspace) (content : List UInt8) (o : Outputs)
    (force : Bool) : Outcome :=
  match o.existing w.disk with
  | .error fault => crashes w fault.typeName
  | .ok existing =>
    let names := ", ".intercalate existing
    if !existing.isEmpty && !force then
      prints w 1 ["ERROR: outputs already exist (" ++ names ++ "); pass --force to overwrite."]
    else
      let before :=
        if existing.isEmpty then [] else ["INFO: overwriting existing outputs: " ++ names]
      finish o (compileContent t content) before w

/-- Prints the analysis of the content of a file. -/
def analyzeContent (w : Workspace) (content : List UInt8) : Outcome :=
  match sourceText content with
  | .error _ => crashes w "UnicodeDecodeError"
  | .ok text =>
    match Document.read text with
    | .error (.malformed e) => prints w 2 ["ERROR(parse): " ++ e.message]
    | .error (.numeral _) => crashes w "ValueError"
    | .ok d =>
      match Analysis.classify .standard d with
      | .error _ => crashes w "AnalysisError"
      | .ok a => prints w 0 [Json.indented 0 a.toValue]

/-- The lines that list the known patterns. -/
def patternLines : List String :=
  Registry.standard.patterns.map fun p =>
    let required := ", ".intercalate (sortedNames p.required)
    p.id ++ "\trequired: " ++ if required.isEmpty then "-" else required

/-- Carries out a command. A source that is no file asks for nothing, and neither does a directory
whose name holds a null character. -/
def execute (t : Terminal) (w : Workspace) : Command → Outcome
  | .help command => prints w 0 (Command.usage t.program command)
  | .patterns => prints w 0 patternLines
  | .analyze source =>
    match w.disk.find? (Path.ofText source) with
    | some (.file content) => analyzeContent w content
    | _ => prints w 2 []
  | .compile source outDir force =>
    match w.disk.find? (Path.ofText source) with
    | some (.file content) =>
      if outDir.contains '\x00' then prints w 2 []
      else compileInto t w content (Outputs.within (Path.ofText outDir)) force
    | _ => prints w 2 []

/-- Carries out what the arguments ask for. -/
def run (t : Terminal) (w : Workspace) (args : List String) : Outcome :=
  match Command.parse? args with
  | some command => execute t w command
  | none => prints w 2 []

end CommandLine

end PageCompiler
