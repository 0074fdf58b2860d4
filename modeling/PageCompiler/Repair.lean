import PageCompiler.Journal

/-!
# `PageCompiler.Repair`: one attempt to mend a text

A text without defects is taken as it is. A text with defects is sent once to a service that
mends texts, if there is one, and what comes back must have no defect left. A code fence around
the reply is taken off.
-/

set_option autoImplicit false

namespace PageCompiler.Repair

open Text

/-- The marks of a code fence. -/
def fence : List Char := "```".toList

/-- A text without `ending` at its end. -/
def dropEnding? (ending s : List Char) : Option (List Char) :=
  (after? ending.reverse s.reverse).map List.reverse

/-- What stands between the fences of a text that is fenced as a whole, with the rest of the
opening line. The opening line holds at most a word and blanks. -/
def fenced? (s : List Char) : Option (List Char) := do
  let s ← after? fence s
  let core ← dropEnding? ('\n' :: fence) (s.dropWhile isNameChar)
  if (core.takeWhile isBlank).contains '\n' then some core else none

/-- A reply without white space at its ends and without a code fence (`strip_code_fences`). -/
def stripFences (reply : String) : String :=
  let s := trim reply.toList
  match fenced? s with
  | some core => String.ofList (trim core)
  | none => String.ofList s

/-- What a service is told about mending texts. -/
def directives : String :=
  "You are an APML syntax expert. Fix the provided APML content to resolve the listed " ++
  "issues. Keep every section, component name and property you can. Return only the " ++
  "corrected APML, no explanations."

/-- The request to mend a text. -/
def request (text : String) (issues : List Issue) (settings : CompilerSettings) : RepairRequest :=
  let listed := "\n".intercalate (issues.map fun i => "- " ++ i.describe)
  { prompt := "Fix these APML issues:\n" ++ listed ++ "\n\nAPML Content:\n" ++ text,
    maxTokens := settings.repairMaxTokens, directives, issues }

/-- The codes of defects as a value. -/
def codes (issues : List Issue) : Value :=
  Value.texts (issues.map Issue.code)

/-- Calls the service and notes the call. -/
def call (mender : Mender) (r : RepairRequest) (timeout : Value) : CompileM Reply := do
  modify fun j => { j with calls := j.calls ++ [.repair (r, timeout)] }
  return mender r timeout

/-- A text that can be compiled, and the defects that were mended to get it
(`validate_and_repair`). -/
def run (text : String) (mender : Option Mender) (settings : CompilerSettings) :
    CompileM (String × List Issue) := do
  let issues ← CompileM.orFail .numeral (Issue.detect text)
  if issues.isEmpty then return (text, [])
  if issues.any fun i => !i.repairable then
    throw (.rejected (Issue.summary "APML input rejected" issues) issues)
  let some mender := mender
    | throw (.unrepairable
        (Issue.summary "APML has issues and no repair capability is configured" issues) issues [])
  CompileM.log "repair_start" [("issue_codes", codes issues)]
  match ← call mender (request text issues settings) settings.repairTimeout with
  | .crashed message => throw (.crashed message)
  | .failed e =>
    CompileM.log "repair_failed" [("reason", .text e.reason)]
    throw (.unrepairable (Issue.summary ("APML repair failed (" ++ e.reason ++ ")") issues)
      issues [])
  | .text reply =>
    let repaired := stripFences reply
    let remaining ← CompileM.orFail .numeral (Issue.detect repaired)
    if remaining.isEmpty then
      CompileM.log "repair_done" [("repaired_count", .int issues.length)]
      return (repaired, issues)
    CompileM.log "repair_incomplete" [("remaining_codes", codes remaining)]
    throw (.unrepairable (Issue.summary "APML issues persist after repair" issues) issues remaining)

end PageCompiler.Repair
