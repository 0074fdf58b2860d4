import PageCompiler.Decimal.Literal
import PageCompiler.Json.Reader
import PageCompiler.Settings
import PageCompiler.Text.Blank
import PageCompiler.Text.Word

/-!
# `PageCompiler.Server.Submission`: documents sent in for compilation

A submission is a JSON object with a document, the session it belongs to, and whether a page is
wanted. `Submission.read` checks a request body in this order: its size, that it is JSON, that it is
an object, that its names are texts, the declared fields in their order, fields that are not
declared, the document, and the name of the session. The first fault is reported.
-/

set_option autoImplicit false

namespace PageCompiler

open Text

/-- A document sent in for compilation. -/
structure Submission where
  document : String
  session : Option String
  includePage : Bool
  /-- What stands for halves of characters in the texts, if there are any. -/
  standIns : Option StandIns
  deriving DecidableEq, Repr

/-- Why a request body is not a submission. -/
inductive SubmissionError where
  | tooLarge (limit : Int)
  | notJson
  | notObject
  /-- A field has no proper value. -/
  | badField (field reason : String)
  | blankDocument
  | badSession
  deriving DecidableEq, Repr

namespace SubmissionError

/-- The status of the response. -/
def status : SubmissionError → Nat
  | .tooLarge _ => 413
  | _ => 400

/-- The code of the failure. -/
def code : SubmissionError → String
  | .tooLarge _ => "PAYLOAD_TOO_LARGE"
  | _ => "INVALID_ARGUMENT"

/-- What is said about the failure. -/
def message : SubmissionError → String
  | .tooLarge _ => "request body too large"
  | .notJson => "request body must be JSON"
  | .notObject => "request body must be a JSON object"
  | .badField _ _ => "invalid compile request"
  | .blankDocument => "apml must not be empty"
  | .badSession => "session_id must be 1-128 characters of [A-Za-z0-9_.-]"

/-- What is said about the failure beyond its message. -/
def detail : SubmissionError → Fields
  | .tooLarge limit => [("max_bytes", .int limit)]
  | .notJson | .notObject => [("field", .text "body")]
  | .badField field reason => [("field", .text field), ("reason", .text reason)]
  | .blankDocument => [("field", .text "apml")]
  | .badSession => [("field", .text "session_id")]

end SubmissionError

namespace Submission

/-- The words for true. -/
def trueWords : List String := ["1", "on", "t", "true", "y", "yes"]

/-- The words for false. -/
def falseWords : List String := ["0", "off", "f", "false", "n", "no"]

/-- What is said about a value that is no truth value. -/
def notBoolean : String := "Input should be a valid boolean"

/-- What is said about a value that could be a truth value and is none. -/
def unclearBoolean : String := notBoolean ++ ", unable to interpret input"

/-- What is said about a text with a half of a character in it. -/
def notText : String :=
  "Input should be a valid string, unable to parse raw data as a unicode string"

/-- The truth value of a whole number. -/
def boolOfInt (n : Int) : Except String Bool :=
  if n == 0 then .ok false else if n == 1 then .ok true else .error unclearBoolean

/-- The whole numbers that are looked at: those of 64 bits. -/
def isWord64 (n : Int) : Bool :=
  -9223372036854775808 ≤ n && n ≤ 9223372036854775807

/-- There are halves of characters in a text. -/
def holdsHalf (standIns : Option StandIns) (s : String) : Bool :=
  (standIns.map (·.occurIn s)).getD false

/-- A value as a truth value. Words are compared without regard to case. -/
def readBool (standIns : Option StandIns) : Value → Except String Bool
  | .bool b => .ok b
  | .text s =>
    let word := String.ofList (s.toList.map asciiLower)
    if holdsHalf standIns s then .error notText
    else if trueWords.contains word then .ok true
    else if falseWords.contains word then .ok false
    else .error unclearBoolean
  | .int n => if isWord64 n then boolOfInt n else .error notBoolean
  | .float x =>
    if x == 0.0 then .ok false
    else if x == 1.0 then .ok true
    else if x.floor == x && x.abs < 9223372036854775808.0 then .error unclearBoolean
    else .error notBoolean
  | _ => .error notBoolean

/-- A value as a text. -/
def readText : Value → Except String String
  | .text s => .ok s
  | _ => .error "Input should be a valid string"

/-- A value as a text that may be missing. -/
def readText? : Value → Except String (Option String)
  | .null => .ok none
  | v => (readText v).map some

/-- A declared field, read by `f`. A field that is not given takes its default, if it has one. -/
def readField {α : Type} (fields : Fields) (name : String) (default : Option α)
    (f : Value → Except String α) : Except SubmissionError α :=
  match Assoc.get? fields name, default with
  | some v, _ => (f v).mapError (SubmissionError.badField name)
  | none, some a => .ok a
  | none, none => .error (.badField name "Field required")

/-- The fields that a submission may have. -/
def declaredFields : List String := ["apml", "session_id", "include_html"]

/-- The first field that is not declared. The field without a name stands for the whole body. -/
def undeclared? (fields : Fields) : Option String :=
  ((Assoc.keys fields).find? fun key => !declaredFields.contains key).map fun key =>
    if key.isEmpty then "body" else key

/-- A field that is not declared and whose name is no proper text. -/
def hasBrokenName (standIns : Option StandIns) (fields : Fields) : Bool :=
  (Assoc.keys fields).any (holdsHalf standIns)

/-- The name of a session: letters, digits, underscores, points and hyphens of ASCII. One line feed
may end it. -/
def isSessionName (s : String) : Bool :=
  let chars := s.toList
  let name := if chars.getLast? == some '\n' then chars.dropLast else chars
  !name.isEmpty && name.length ≤ 128 &&
    name.all fun c => isAsciiLetter c || isAsciiDigit c || c == '_' || c == '.' || c == '-'

/-- A submission whose fields have proper values. A name that is no proper text spoils the whole
body. -/
def ofFields (standIns : Option StandIns) (fields : Fields) :
    Except SubmissionError Submission := do
  if hasBrokenName standIns fields then throw (.badField "body" notText)
  let document ← readField fields "apml" none readText
  let session ← readField fields "session_id" (some none) readText?
  let includePage ← readField fields "include_html" (some false) (readBool standIns)
  match undeclared? fields with
  | some key => .error (.badField key "Extra inputs are not permitted")
  | none => .ok { document, session, includePage, standIns }

/-- Checks the document and the name of the session. -/
def check (s : Submission) : Except SubmissionError Submission :=
  if allBlank s.document.toList then .error .blankDocument
  else if (s.session.map isSessionName).getD true then .ok s
  else .error .badSession

/-- What stands for halves in a value that was read, if there are any. -/
def standIns? (r : Json.Reading) : Option StandIns :=
  if r.value.anyText r.standIns.occurIn then some r.standIns else none

/-- Reads a request body of at most `limit` bytes. An empty body counts as null. What stands for
halves of characters is not in `context`. -/
def read (limit : Int) (context : List Char) (body : List UInt8) :
    Except SubmissionError Submission :=
  if limit < body.length then .error (.tooLarge limit)
  else if body.isEmpty then .error .notObject
  else
    match Json.readBytes? context body with
    | none => .error .notJson
    | some r =>
      match r.value with
      | .map fields => (ofFields (standIns? r) fields).bind check
      | _ => .error .notObject

end Submission

end PageCompiler
