import PageCompiler.Server.Limiter
import PageCompiler.Server.Route
import PageCompiler.Server.Sessions
import PageCompiler.Server.Stats
import PageCompiler.Server.Submission

/-!
# `PageCompiler.Server.Basic`: the web interface

`Server.serve` answers one request. It turns the state of the server into the next one and logs
what happened. Submissions are compiled if a slot is free. A compilation that succeeds is counted
and its artifact kept for its session. A failure that is the sender's is counted under its code. A
breakdown is answered and logged, and leaves the state as it was. An answer that cannot be sent
because there are halves of characters in it, from the submission or from a service, ends in a
breakdown too, but what was counted and kept before stays.

The network, the clock and the names of requests are outside and come in with each request.
-/

set_option autoImplicit false

namespace PageCompiler

/-- The version that is reported. -/
def version : String := "0.1.0"

/-- A request. -/
structure Request where
  method : String
  /-- The address that is asked for. -/
  target : String
  body : List UInt8
  deriving DecidableEq, Repr

/-- A response. -/
structure Response where
  status : Nat
  body : Value
  /-- What stands for halves of characters in the body. -/
  standIns : List Text.StandIns
  deriving Repr

/-- A response that cannot be sent because its body holds halves of characters. -/
def Response.isBroken (r : Response) : Bool :=
  r.standIns.any fun standIns => r.body.anyText standIns.occurIn

/-- What a request is served with. -/
structure Context where
  environment : Environment
  /-- The compiler, for given limits. -/
  compile : CompilerSettings → String → Except CompileError Compilation
  /-- The texts that the compiler may add to those of a document, such as the replies of a
  service. -/
  additions : List Char
  /-- What stands for halves of characters in the replies of services, if they bring any. -/
  standIns : Option Text.StandIns
  /-- The name of the request. -/
  requestId : String
  /-- How long the request waited for a slot, in milliseconds. -/
  waitedMs : Nat
  /-- How long the request took, in milliseconds. -/
  elapsedMs : Nat

/-- What the server remembers from one request to the next. -/
structure Server where
  stats : Stats
  sessions : Sessions
  limiter : Option Limiter
  /-- What stands for halves of characters in the artifacts of sessions. -/
  standIns : Assoc (List Text.StandIns)
  deriving Repr

/-- What comes of a request. -/
structure Served where
  response : Response
  events : List Event
  server : Server
  deriving Repr

/-- A failure that is reported to the sender. -/
structure Failure where
  status : Nat
  code : String
  message : String
  /-- What the server was doing. -/
  stage : String
  detail : Fields
  deriving Repr

namespace Failure

/-- The failure of a request body that is not a submission. -/
def ofSubmission (e : SubmissionError) : Failure :=
  { status := e.status, code := e.code, message := e.message, stage := "validate_inputs",
    detail := e.detail }

/-- The failure of a request for which no slot is free. -/
def busy (l : Limiter) (waitedMs : Nat) : Failure :=
  { status := 429, code := "TOO_MANY_REQUESTS", message := "server busy", stage := "queue",
    detail :=
      [("max_concurrency", .int l.maxConcurrency),
       ("queue_timeout_seconds", .float l.queueTimeout), ("queue_wait_ms", .int waitedMs)] }

/-- The code of a failed compilation, if the document is at fault. -/
def compileCode? : CompileError → Option String
  | .malformed _ => some "PARSE_ERROR"
  | .unrepairable _ _ _ => some "UNREPAIRABLE_DOCUMENT"
  | .rejected _ _ => some "VALIDATION_ERROR"
  | _ => none

/-- The failure of a compilation, if the document is at fault. -/
def ofCompile? (e : CompileError) : Option Failure :=
  (compileCode? e).map fun code =>
    { status := 422, code, message := e.message, stage := "compile", detail := e.detail }

end Failure

namespace Server

/-- A server that has served nothing yet. -/
def fresh (sessions : Sessions) : Server :=
  { stats := .empty, sessions, limiter := none, standIns := [] }

/-- The body that reports a failure. -/
def errorBody (ctx : Context) (code message : String) (detail : Fields) : Value :=
  .map
    [("error_code", .text code), ("message", .text message),
     ("detail", .map (Assoc.insert detail "request_id" (.text ctx.requestId)))]

/-- An event of a request. -/
def event (ctx : Context) (name : String) (fields : Fields) : Event :=
  { name, fields := ("request_id", .text ctx.requestId) :: fields }

/-- The event of a failure. -/
def errorEvent (ctx : Context) (code stage : String) (status : Nat) : Event :=
  event ctx "error"
    [("error_code", .text code), ("status_code", .int status), ("failure_stage", .text stage)]

/-- A response that changes nothing and is not logged. -/
def plain (s : Server) (status : Nat) (body : Value) : Served :=
  { response := { status, body, standIns := [] }, events := [], server := s }

/-- Reports and counts a failure. What is said about it may hold halves of characters. -/
def fail (s : Server) (ctx : Context) (f : Failure) (standIns : List Text.StandIns) : Served :=
  { response := { status := f.status, body := errorBody ctx f.code f.message f.detail, standIns },
    events := [errorEvent ctx f.code f.stage f.status],
    server := { s with stats := s.stats.recordFailure f.code } }

/-- Reports a breakdown at a path. -/
def breakDown (s : Server) (ctx : Context) (path : List Char) : Served :=
  let shown := path.filter fun c => c != '\n' && c != '\r' && c != '\t'
  { response :=
      { status := 500,
        body := errorBody ctx "INTERNAL_ERROR" "internal server error"
          [("path", .text (String.ofList shown))],
        standIns := [] },
    events := [errorEvent ctx "INTERNAL_ERROR" "middleware" 500], server := s }

/-- The body that hands out a compilation. -/
def resultBody (ctx : Context) (c : Compilation) (includePage : Bool) : Value :=
  .map
    ([("ok", .bool true), ("request_id", .text ctx.requestId)] ++ c.toFields ++
      if includePage then [("html", .text c.artifact.page)] else [])

/-- What stands for halves of characters in what the compiler makes of a submission. -/
def halves (ctx : Context) (r : Submission) : List Text.StandIns :=
  r.standIns.toList ++ ctx.standIns.toList

/-- The server with an artifact kept for the session of a submission, if it names one. -/
def keep (s : Server) (ctx : Context) (r : Submission) (a : Artifact) : Server :=
  match r.session with
  | none => s
  | some id =>
    { s with
      sessions := s.sessions.put id a,
      standIns := Assoc.insert s.standIns id (halves ctx r) }

/-- Hands out, counts and keeps a compilation. -/
def succeed (s : Server) (ctx : Context) (r : Submission) (c : Compilation) : Served :=
  { response :=
      { status := 200, body := resultBody ctx c r.includePage, standIns := halves ctx r },
    events :=
      [event ctx "compile"
        [("status_code", .int 200), ("strategy", .text c.artifact.strategyUsed.name),
         ("degraded", .bool c.artifact.degraded), ("session_id", Value.ofText? r.session),
         ("compile_ms", .int c.metrics.durationMs), ("total_ms", .int ctx.elapsedMs)]],
    server :=
      Server.keep { s with stats := s.stats.record c.metrics c.artifact.degraded } ctx r
        c.artifact }

/-- The server with the limiter that the environment asks for, and that limiter. -/
def withLimiter (s : Server) (env : Environment) : Server × Limiter :=
  let l := Limiter.current s.limiter (ApiSettings.ofEnvironment env)
  ({ s with limiter := some l }, l)

/-- Answers a submission, if it does not break down (`compile_v1`). The slot that a compilation
takes is given back when it ends. -/
def submit (server : Server) (ctx : Context) (body : List UInt8) : Except Server Served :=
  let (s, l) := server.withLimiter ctx.environment
  let limit := (ApiSettings.ofEnvironment ctx.environment).maxDocumentBytes
  match Submission.read limit ctx.additions body with
  | .error e => .ok (s.fail ctx (.ofSubmission e) [])
  | .ok r =>
    match l.admit? with
    | none => .ok (s.fail ctx (.busy l ctx.waitedMs) [])
    | some _ =>
      match ctx.compile (CompilerSettings.ofEnvironment ctx.environment) r.document with
      | .ok c => .ok (s.succeed ctx r c)
      | .error e =>
        match Failure.ofCompile? e with
        | some f => .ok (s.fail ctx f (halves ctx r))
        | none => .error s

/-- The patterns that are known, as a value. -/
def patternsBody : Value :=
  .map
    [("patterns",
      .list (Registry.standard.patterns.map fun p =>
        .map
          [("id", .text p.id), ("required_fields", Value.texts (sortedNames p.required)),
           ("semantic_keywords", Value.texts (sortedNames p.keywords))])),
     ("version", .text version)]

/-- Answers what a route asks for. If that breaks down, the state of the server is left. -/
def follow (s : Server) (ctx : Context) (body : List UInt8) : Route → Except Server Served
  | .health => .ok (s.plain 200 (.map [("status", .text "ok")]))
  | .patterns => .ok (s.plain 200 patternsBody)
  | .stats =>
    match s.stats.snapshot with
    | .ok fields => .ok (s.plain 200 (.map (fields ++ [("sessions", .int s.sessions.size)])))
    | .error _ => .error s
  | .artifact id =>
    match s.sessions.get? id with
    | some a =>
      let body : Value := .map [("session_id", .text id), ("artifact", a.toValue)]
      .ok
        { response := { status := 200, body, standIns := (Assoc.get? s.standIns id).getD [] },
          events := [], server := s }
    | none =>
      .ok (s.plain 404
        (errorBody ctx "SESSION_NOT_FOUND" "no artifact cached for session"
          [("session_id", .text id)]))
  | .compile => s.submit ctx body

/-- An answer that can be sent. -/
def settle (ctx : Context) (path : List Char) : Except Server Served → Served
  | .error s => s.breakDown ctx path
  | .ok served =>
    if served.response.isBroken then
      let broken := served.server.breakDown ctx path
      { broken with events := served.events ++ broken.events }
    else served

/-- Answers a request for a path. -/
def respond (s : Server) (ctx : Context) (method : String) (path : List Char)
    (body : List UInt8) : Served :=
  match Route.ofPath? path with
  | none => s.plain 404 (.map [("detail", .text "Not Found")])
  | some route =>
    if route.isAskedBy method then settle ctx path (s.follow ctx body route)
    else s.plain 405 (.map [("detail", .text "Method Not Allowed")])

/-- Answers a request. -/
def serve (s : Server) (ctx : Context) (r : Request) : Except TargetError Served :=
  (Route.path r.target).map fun path => s.respond ctx r.method path r.body

/-- Takes up to `n` slots of the limiter that the environment asks for. Without any slot to take the
limiter is not looked at. -/
def hold (s : Server) (env : Environment) (n : Nat) : Server :=
  if n == 0 then s
  else
    let (s, l) := s.withLimiter env
    { s with limiter := some (l.hold n) }

/-- Gives `n` slots back to the limiter that the environment asks for. Without any slot to give the
limiter is not looked at. -/
def release (s : Server) (env : Environment) (n : Nat) : Except SlotsFree Server :=
  if n == 0 then .ok s
  else
    let (s, l) := s.withLimiter env
    (l.releaseAll n).map fun l => { s with limiter := some l }

end Server

end PageCompiler
