/-!
# `PageCompiler.CommandLine.Arguments`: what the arguments of the program ask for

The first argument that is no option names a command. The options of the program stand before it,
those of the command anywhere behind it. Two hyphens end the options. `Command.parse?` answers
nothing for arguments that ask for no command.
-/

set_option autoImplicit false

namespace PageCompiler

/-- What the program is asked to do. -/
inductive Command where
  /-- Compile a file and write the outputs into a directory. -/
  | compile (source outDir : String) (force : Bool)
  /-- Print the analysis of a file. -/
  | analyze (source : String)
  /-- Print the known patterns. -/
  | patterns
  /-- Print how the program, or one command, is used. -/
  | help (command : Option String)
  deriving DecidableEq, Repr

namespace Command

/-- What the arguments of a command hold. -/
structure Arguments where
  values : List String
  outDir : Option String
  force : Bool
  help : Bool
  deriving DecidableEq, Repr

/-- No arguments. -/
def Arguments.empty : Arguments :=
  { values := [], outDir := none, force := false, help := false }

/-- An argument that is an option: a hyphen with something behind it. -/
def isOption (s : String) : Bool :=
  s.startsWith "-" && 1 < s.length

/-- The value that an option holds behind an equals sign. -/
def attached? (option s : String) : Option String :=
  if s.startsWith (option ++ "=") then some ((s.drop (option.length + 1)).toString) else none

/-- Reads the arguments of a command. `forCompile` says that its own options are allowed. -/
def readArguments? (forCompile : Bool) (a : Arguments) : List String → Option Arguments
  | [] => some a
  | s :: rest =>
    if s == "--" then some { a with values := a.values ++ rest }
    else if !isOption s then readArguments? forCompile { a with values := a.values ++ [s] } rest
    else if s == "--help" then readArguments? forCompile { a with help := true } rest
    else if forCompile && s == "--force" then
      readArguments? forCompile { a with force := true } rest
    else if forCompile && s == "--out-dir" then
      match rest with
      | value :: rest => readArguments? forCompile { a with outDir := some value } rest
      | [] => none
    else if forCompile then
      match attached? "--out-dir" s with
      | some value => readArguments? forCompile { a with outDir := some value } rest
      | none => none
    else none

/-- The command of a name with its arguments. -/
def ofArguments? (name : String) (a : Arguments) : Option Command :=
  if a.help then some (.help (some name))
  else if name == "compile" then
    match a.values with
    | [source] => some (.compile source (a.outDir.getD ".") a.force)
    | _ => none
  else if name == "analyze" then
    match a.values with
    | [source] => some (.analyze source)
    | _ => none
  else if a.values.isEmpty then some .patterns
  else none

/-- The names of the commands. -/
def names : List String := ["compile", "analyze", "patterns"]

/-- The options of the program itself: whether they ask for help, whether two hyphens end them, and
what stands behind them. -/
def readOptions? (help : Bool) : List String → Option (Bool × Bool × List String)
  | [] => some (help, false, [])
  | s :: rest =>
    if s == "--" then some (help, true, rest)
    else if !isOption s then some (help, false, s :: rest)
    else if s == "--help" then readOptions? true rest
    else none

/-- The command that stands behind the options of the program itself. -/
def parseNamed? : List String → Option Command
  | [] => none
  | name :: rest =>
    if names.contains name then
      (readArguments? (name == "compile") .empty rest).bind (ofArguments? name)
    else none

/-- What the arguments of the program ask for. What looks like an option in the place of a command
is read as one, so help can be asked for there too. -/
def parse? (args : List String) : Option Command :=
  match readOptions? false args with
  | none => none
  | some (true, _, _) => some (.help none)
  | some (false, ended, rest) =>
    match (if ended then readOptions? false rest else none) with
    | some (true, _, _) => some (.help none)
    | _ => parseNamed? rest

/-- How a command, or the program, is used. -/
def usage (program : String) : Option String → List String
  | some "compile" =>
    ["Usage: " ++ program ++ " compile [OPTIONS] \x7bsource\x7d", "",
     "  Compile one APML file into out.html and out.artifact.json.", "",
     "Arguments:",
     "  source <file>  [required]", "",
     "Options:",
     "  --out-dir <path>  [default: .]",
     "  --force           Overwrite outputs when they already exist.",
     "  --help            Show this message and exit."]
  | some "analyze" =>
    ["Usage: " ++ program ++ " analyze [OPTIONS] \x7bsource\x7d", "",
     "  Print the pattern analysis of one APML file as JSON.", "",
     "Arguments:",
     "  source <file>  [required]", "",
     "Options:",
     "  --help  Show this message and exit."]
  | some name =>
    ["Usage: " ++ program ++ " " ++ name ++ " [OPTIONS]", "",
     "  List registered pattern ids with their required fields.", "",
     "Options:",
     "  --help  Show this message and exit."]
  | none =>
    ["Usage: " ++ program ++ " [OPTIONS] COMMAND [ARGS]...", "",
     "  APML to Vue 3 compiler", "",
     "Options:",
     "  --install-completion  Install completion for the current shell.",
     "  --show-completion     Show completion for the current shell, to copy it or",
     "                        customize the installation.",
     "  --help                Show this message and exit.", "",
     "Commands:",
     "  compile   Compile one APML file into out.html and out.artifact.json.",
     "  analyze   Print the pattern analysis of one APML file as JSON.",
     "  patterns  List registered pattern ids with their required fields."]

end Command

end PageCompiler
