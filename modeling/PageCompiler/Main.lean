import PageCompiler.CommandLine.Basic
import PageCompiler.Service.Client

/-!
# `PageCompiler.Main`: the program

The program takes a picture of the files that its arguments name, carries out what they ask for on
that picture, and then makes the disk look like the result.
-/

set_option autoImplicit false

namespace PageCompiler.Main

/-- The variables that the settings are read from. -/
def settingNames : List String :=
  ["APMLC_FALLBACK_TIMEOUT_SECONDS", "APMLC_REPAIR_TIMEOUT_SECONDS", "APMLC_FALLBACK_MAX_TOKENS",
   "APMLC_REPAIR_MAX_TOKENS", "APMLC_MAX_DOCUMENT_CONTEXT_CHARS",
   "APMLC_MAX_FRAGMENT_CONTEXT_CHARS", "APMLC_FALLBACK_BACKEND", "APMLC_OLLAMA_URL",
   "APMLC_OLLAMA_MODEL"]

/-- The variables that are set. -/
def readEnvironment : IO Environment :=
  settingNames.filterMapM fun name => return (← IO.getEnv name).map fun value => (name, value)

/-- The locations along the steps of a path. -/
def locationsAlong (here : Location) : List String → List Location
  | [] => [here]
  | step :: rest =>
    here ::
      if step == ".." then locationsAlong here.dropLast rest
      else locationsAlong (here ++ [step]) rest

/-- The locations along a path. -/
def locationsOf (cwd : Location) (path : Path) : List Location :=
  locationsAlong (if path.absolute then [] else cwd) path.parts

/-- The locations that a command looks at. -/
def footprint (cwd : Location) : Command → List Location
  | .compile source outDir _ =>
    let o := Outputs.within (Path.ofText outDir)
    locationsOf cwd (Path.ofText source) ++
      [o.page, o.report, o.error].flatMap (locationsOf cwd)
  | .analyze source => locationsOf cwd (Path.ofText source)
  | _ => []

/-- What is at a location of the disk. -/
def inspect (l : Location) : IO (Option Node) := do
  let path := (← IO.currentDir) / Disk.locationText l
  if ← path.isDir then return some .directory
  if ← path.pathExists then return some (.file (← IO.FS.readBinFile path).toList)
  return none

/-- A picture of some locations of the disk. -/
def snapshot (cwd : Location) (ls : List Location) : IO Disk := do
  let entries ← ls.eraseDups.filterMapM fun l => return (← inspect l).map fun n => (l, n)
  return { entries, workingDirectory := cwd }

/-- Makes the disk look like a picture, where it differs from an earlier one. -/
def save (before after : Disk) : IO Unit := do
  for (l, _) in before.entries do
    if (after.node? l).isNone then IO.FS.removeFile (Disk.locationText l)
  for (l, n) in after.entries.reverse do
    if before.node? l != some n then
      let path := Disk.locationText l
      match n with
      | .directory => IO.FS.createDirAll path
      | .file content =>
        IO.FS.writeBinFile (path ++ ".part") (ByteArray.mk content.toArray)
        IO.FS.rename (path ++ ".part") path

/-- There is no network here. -/
def channel : Client.Channel :=
  { send := fun _ _ => .failure "network is not available", halves := .free [] }

/-- The compiler with the service that an environment asks for. -/
def compiler (env : Environment) (elapsed : Nat) (settings : CompilerSettings) (text : String) :
    Except CompileError Compilation :=
  let client := Client.ofSettings? (BackendSettings.ofEnvironment env)
  (Compiler.run
    { Compiler.standard with
      generator := client.map fun c => c.generator channel
      mender := client.map fun c => c.mender channel
      settings, elapsed } text).1

end PageCompiler.Main

open PageCompiler PageCompiler.Main in
/-- Runs the program. -/
def main (args : List String) : IO UInt32 := do
  let environment ← readEnvironment
  let cwd := (Path.ofText (← IO.currentDir).toString).parts
  let ls := ((Command.parse? args).map (footprint cwd)).getD []
  let disk ← snapshot cwd ls
  let seed ← IO.rand 0 (2821109907456)
  let workspace : Workspace := { disk, temporaries := 0, token := fun n => toString (seed + n) }
  let runFor (elapsed : Nat) : Outcome :=
    CommandLine.run
      { program := "apmlc", environment, compile := compiler environment elapsed } workspace args
  let start ← IO.monoMsNow
  if (runFor 0).crash.isSome then IO.eprintln "ERROR: internal error"
  let stop ← IO.monoMsNow
  let outcome := runFor (stop - start)
  IO.print outcome.output
  save disk outcome.workspace.disk
  return UInt32.ofNat outcome.exitCode
