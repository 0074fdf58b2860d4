import PageCompiler.Text.Quoted
import PageCompiler.Text.Utf8

/-!
# `PageCompiler.CommandLine.Disk`: files and directories

A disk has files and directories at locations. A path leads from the working directory, or from the
root, to a location. Every operation says how it fails and changes nothing if it does.

* `Disk.walk` follows the steps of a path.
* `Disk.makeDirectories` makes a directory and those above it.
* `Disk.rename` and `Disk.unlink` move and remove files.
-/

set_option autoImplicit false

namespace PageCompiler

open Text

/-- What is at a location. -/
inductive Node where
  | file (content : List UInt8)
  | directory
  deriving DecidableEq, Repr

/-- A place on a disk: the names that lead to it from the root. -/
abbrev Location := List String

/-- Why an operation on files fails. -/
inductive FileFault where
  | missing
  | occupied
  | notDirectory
  | isDirectory
  | nameTooLong
  deriving DecidableEq, Repr

/-- The number and the name of a fault. -/
def FileFault.text : FileFault → String
  | .missing => "[Errno 2] No such file or directory"
  | .occupied => "[Errno 17] File exists"
  | .notDirectory => "[Errno 20] Not a directory"
  | .isDirectory => "[Errno 21] Is a directory"
  | .nameTooLong => "[Errno 36] File name too long"

/-- An operation on files that failed, with the paths it was given. -/
structure FileError where
  fault : FileFault
  path : String
  target : Option String
  deriving DecidableEq, Repr

/-- The name under which a fault is reported. -/
def FileFault.typeName : FileFault → String
  | .missing => "FileNotFoundError"
  | .occupied => "FileExistsError"
  | .notDirectory => "NotADirectoryError"
  | .isDirectory => "IsADirectoryError"
  | .nameTooLong => "OSError"

/-- The name under which a failed operation is reported. -/
def FileError.typeName (e : FileError) : String :=
  e.fault.typeName

/-- What is said about an operation that failed. -/
def FileError.message (e : FileError) : String :=
  e.fault.text ++ ": " ++ quoted e.path ++
    match e.target with
    | some target => " -> " ++ quoted target
    | none => ""

/-- A path without steps that stay in place. -/
structure Path where
  absolute : Bool
  parts : List String
  deriving DecidableEq, Repr

namespace Path

/-- The path of a text. An empty step or a point stays in place. -/
def ofText (s : String) : Path :=
  let steps := (s.toList.splitOnP (· == '/')).map String.ofList
  { absolute := s.toList.head? == some '/',
    parts := steps.filter fun step => !step.isEmpty && step != "." }

/-- The text of a path. -/
def text (p : Path) : String :=
  if p.absolute then "/" ++ "/".intercalate p.parts
  else if p.parts.isEmpty then "."
  else "/".intercalate p.parts

/-- A path one step further. -/
def child (p : Path) (name : String) : Path :=
  { p with parts := p.parts ++ [name] }

/-- The path of the first `n` steps. -/
def take (p : Path) (n : Nat) : Path :=
  { p with parts := p.parts.take n }

end Path

/-- Files and directories. -/
structure Disk where
  /-- Every directory stands here too, except for the root. -/
  entries : List (Location × Node)
  /-- Where paths that are not absolute start. -/
  workingDirectory : Location
  deriving DecidableEq, Repr

namespace Disk

/-- What is at a location. -/
def node? (d : Disk) (l : Location) : Option Node :=
  if l.isEmpty then some .directory
  else (d.entries.find? fun entry => entry.1 == l).map (·.2)

/-- Removes what is at a location. -/
def erase (d : Disk) (l : Location) : Disk :=
  { d with entries := d.entries.filter fun entry => entry.1 != l }

/-- Puts something at a location. -/
def put (d : Disk) (l : Location) (n : Node) : Disk :=
  { d with entries := (l, n) :: (d.erase l).entries }

/-- The most bytes of a name. -/
def maxNameBytes : Nat := 255

/-- The most bytes of a path. -/
def maxPathBytes : Nat := 4095

/-- Follows steps from a location on. All but the last must lead to directories. A name is looked up
in a directory only if it is not too long. -/
def walk (d : Disk) : Location → List String → Except FileFault Location
  | here, [] => .ok here
  | here, step :: rest =>
    match d.node? here with
    | none => .error .missing
    | some (.file _) => .error .notDirectory
    | some .directory =>
      if step == ".." then d.walk here.dropLast rest
      else if maxNameBytes < step.utf8ByteSize then .error .nameTooLong
      else d.walk (here ++ [step]) rest

/-- The location to which a path leads. -/
def locate (d : Disk) (p : Path) : Except FileFault Location :=
  if maxPathBytes < p.text.utf8ByteSize then .error .nameTooLong
  else d.walk (if p.absolute then [] else d.workingDirectory) p.parts

/-- What a path leads to. -/
def find? (d : Disk) (p : Path) : Option Node :=
  (d.locate p).toOption.bind d.node?

/-- A path leads to something. A path that cannot be looked up fails. -/
def has (d : Disk) (p : Path) : Except FileFault Bool :=
  match d.locate p with
  | .ok l => .ok (d.node? l).isSome
  | .error .nameTooLong => .error .nameTooLong
  | .error _ => .ok false

/-- Makes one directory. -/
def makeDirectory (d : Disk) (p : Path) : Except FileError Disk :=
  match d.locate p with
  | .error fault => .error { fault, path := p.text, target := none }
  | .ok l =>
    if (d.node? l).isSome then .error { fault := .occupied, path := p.text, target := none }
    else .ok (d.put l .directory)

/-- Makes one directory, unless it is there. -/
def ensureDirectory (d : Disk) (p : Path) : Except FileError Disk :=
  match d.makeDirectory p with
  | .ok d' => .ok d'
  | .error e => if e.fault != .missing && d.find? p == some .directory then .ok d else .error e

/-- Makes the directory of the first `n` steps of a path, and those above it that are missing.
Directories that were made stay if a later one cannot be made. -/
def makeDirectoriesFrom (d : Disk) (p : Path) : Nat → Disk × Except FileError Unit
  | 0 =>
    match d.ensureDirectory (p.take 0) with
    | .ok d' => (d', .ok ())
    | .error e => (d, .error e)
  | n + 1 =>
    match d.ensureDirectory (p.take (n + 1)) with
    | .ok d' => (d', .ok ())
    | .error e =>
      if e.fault == .missing then
        match d.makeDirectoriesFrom p n with
        | (d', .error e) => (d', .error e)
        | (d', .ok ()) =>
          match d'.ensureDirectory (p.take (n + 1)) with
          | .ok d'' => (d'', .ok ())
          | .error e => (d', .error e)
      else (d, .error e)

/-- Makes a directory, and those above it that are missing. -/
def makeDirectories (d : Disk) (p : Path) : Disk × Except FileError Unit :=
  d.makeDirectoriesFrom p p.parts.length

/-- The text of a location. -/
def locationText (l : Location) : String :=
  "/" ++ "/".intercalate l

/-- Moves the file at a location to where a path leads. A file that is there gives way. -/
def rename (d : Disk) (source : Location) (content : List UInt8) (target : Path) :
    Except FileError Disk :=
  let failed (fault : FileFault) : FileError :=
    { fault, path := locationText source, target := some target.text }
  match d.locate target with
  | .error fault => .error (failed fault)
  | .ok l =>
    match d.node? l with
    | some .directory => .error (failed .isDirectory)
    | _ => .ok ((d.erase source).put l (.file content))

/-- Removes the file to which a path leads, if there is one. -/
def unlink (d : Disk) (p : Path) : Except FileError Disk :=
  match d.locate p with
  | .error .missing => .ok d
  | .error fault => .error { fault, path := p.text, target := none }
  | .ok l =>
    match d.node? l with
    | none => .ok d
    | some (.file _) => .ok (d.erase l)
    | some .directory => .error { fault := .isDirectory, path := p.text, target := none }

end Disk

end PageCompiler
