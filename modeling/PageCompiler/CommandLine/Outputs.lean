import PageCompiler.CommandLine.Disk
import PageCompiler.Json.Text
import PageCompiler.Report

/-!
# `PageCompiler.CommandLine.Outputs`: the files that a compilation leaves

A compilation leaves a page and a report, or the report of an error. A file is written under a
temporary name first and then moved to its place, so that no reader sees half of it.
-/

set_option autoImplicit false

namespace PageCompiler

open Text

/-- The files that a compilation can leave. -/
structure Outputs where
  directory : Path
  page : Path
  report : Path
  error : Path
  deriving DecidableEq, Repr

/-- A disk with names for temporary files. -/
structure Workspace where
  disk : Disk
  /-- The number of temporary files made so far. -/
  temporaries : Nat
  /-- The part by which the names of temporary files differ. -/
  token : Nat → String

/-- Work on files. What was done before a failure stays done. -/
abbrev FileM := ExceptT FileError (StateM Workspace)

namespace FileM

/-- An operation that changes nothing if it fails. -/
def change (f : Disk → Except FileError Disk) : FileM Unit := do
  match f (← get).disk with
  | .ok disk => modify fun w => { w with disk }
  | .error e => throw e

/-- Makes a directory, and those above it that are missing. -/
def makeDirectories (p : Path) : FileM Unit := do
  let (disk, outcome) := (← get).disk.makeDirectories p
  modify fun w => { w with disk }
  match outcome with
  | .ok () => return ()
  | .error e => throw e

/-- Writes a temporary file beside the place of a file. The answer is where it is. -/
def writeTemporary (directory : Path) (name : String) (content : List UInt8) :
    FileM Location := do
  let w ← get
  match w.disk.locate directory with
  | .error fault => throw { fault, path := directory.text, target := none }
  | .ok l =>
    let place := l ++ [name ++ "." ++ w.token w.temporaries ++ ".tmp"]
    set { w with disk := w.disk.put place (.file content), temporaries := w.temporaries + 1 }
    return place

end FileM

namespace Outputs

/-- The outputs in a directory. -/
def within (directory : Path) : Outputs :=
  { directory, page := directory.child "out.html", report := directory.child "out.artifact.json",
    error := directory.child "out.error.json" }

/-- The outputs that are on a disk, by name. -/
def existing (o : Outputs) (d : Disk) : Except FileFault (List String) := do
  let page ← d.has o.page
  let report ← d.has o.report
  let error ← d.has o.error
  return (([(page, "out.html"), (report, "out.artifact.json"), (error, "out.error.json")].filter
    (·.1)).map (·.2))

/-- Writes the page. A temporary file that cannot be moved is removed. -/
def writePage (o : Outputs) (page : String) : FileM Unit := do
  let content := Utf8.encode page
  let place ← FileM.writeTemporary o.directory "out.html" content
  match (← get).disk.rename place content o.page with
  | .ok disk => modify fun w => { w with disk }
  | .error e =>
    modify fun w => { w with disk := w.disk.erase place }
    throw e

/-- Writes a record. A temporary file that cannot be moved stays. -/
def writeRecord (o : Outputs) (path : Path) (name : String) (record : Fields) : FileM Unit := do
  let content := Utf8.encode (Json.record record)
  let place ← FileM.writeTemporary o.directory name content
  FileM.change fun d => d.rename place content path

/-- Writes the page and the report of a compilation and removes the report of an earlier error. -/
def writeResult (o : Outputs) (c : Compilation) : FileM Unit := do
  FileM.makeDirectories o.directory
  o.writePage c.artifact.page
  o.writeRecord o.report "out.artifact.json" c.toFields
  FileM.change fun d => d.unlink o.error

/-- The report of an error. -/
def errorRecord (typeName message stage : String) (detail : Fields) : Fields :=
  [("error", .map
    [("error_type", .text typeName), ("error_message", .text message), ("stage", .text stage),
     ("detail", .map detail)])]

/-- Writes the report of an error. -/
def writeError (o : Outputs) (record : Fields) : FileM Unit := do
  FileM.makeDirectories o.directory
  o.writeRecord o.error "out.error.json" record

end Outputs

end PageCompiler
