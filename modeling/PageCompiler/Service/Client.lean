import PageCompiler.Address.Reader
import PageCompiler.Inspect
import PageCompiler.Json.Reader
import PageCompiler.Log
import PageCompiler.Service.Basic
import PageCompiler.Text.Blank

/-!
# `PageCompiler.Service.Client`: a generative service behind an address

A client sends one call per request and makes a reply of what comes back. Sending is not its work:
it is given what an exchange brought. `call` is what it sends. `readReply` reads an answer and
`Client.converse` puts both together over any way of sending. An answer may hold halves of
characters in its texts. They are kept: other characters stand for them, which the caller chooses
and knows.

An address that cannot be read is a breakdown. An address without a scheme or a host is called, but
nothing that comes back from it is understood.
-/

set_option autoImplicit false

namespace PageCompiler

open Text

/-- A service with a model at an address. The address does not end in a slash. -/
structure Client where
  address : String
  model : String
  deriving DecidableEq, Repr

/-- What is sent to a service. -/
structure Call where
  method : String
  address : Address
  body : Fields
  deriving Repr

/-- What an exchange with a service brings. -/
inductive Exchange where
  | answer (status : Int) (body : List UInt8)
  | timeout
  | failure (message : String)
  deriving DecidableEq, Repr

namespace Client

/-- A client for a model at an address. -/
def ofAddress (address model : String) : Client :=
  { address := String.ofList (dropRightWhile (· == '/') address.toList), model }

/-- The client that the settings ask for. -/
def ofSettings? (s : BackendSettings) : Option Client :=
  match s.backend with
  | .none => none
  | .ollama => some (ofAddress s.url s.model)

/-- How long a client waits if nothing else is said. -/
def defaultTimeout : Value := .float 60.0

/-- The address that a client calls. -/
def endpoint (c : Client) : Except AddressError Address :=
  (Address.read (c.address ++ "/api/generate")).bind Address.empty.under

/-- What a client sends to an address. -/
def call (c : Client) (address : Address) (prompt directives : String) (maxTokens : Int) : Call :=
  { method := "POST", address,
    body :=
      [("model", .text c.model), ("prompt", .text prompt), ("system", .text directives),
       ("stream", .bool false), ("options", .map [("num_predict", .int maxTokens)])] }

/-- The failure of an answer that does not have the right form. -/
def malformed (detail : String) : GenerationError :=
  { reason := "malformed_response", detail := some detail }

/-- The failure of an answer that is not understood at all. -/
def notJson : GenerationError := malformed "body is not JSON"

/-- The text in the body of an answer, and all fields of the body. -/
def readBody (halves : StandIns) (body : List UInt8) : Except GenerationError (String × Fields) :=
  match Json.readWith? halves body with
  | none => .error notJson
  | some (.map fields) =>
    match Assoc.get? fields "response" with
    | some (.text s) => .ok (s, fields)
    | _ => .error (malformed "missing 'response' text")
  | some _ => .error (malformed "body is not an object")

/-- What is logged about an answer. -/
def replyEvent (c : Client) (fields : Fields) : Event :=
  { name := "backend_reply",
    fields :=
      [("model", .text c.model),
       ("eval_count", (Assoc.get? fields "eval_count").getD .null),
       ("prompt_eval_count", (Assoc.get? fields "prompt_eval_count").getD .null)] }

/-- The text that an exchange with an address brought, and what is logged about it. -/
def readReply (c : Client) (halves : StandIns) (address : Address) (timeout : Value) :
    Exchange → Except GenerationError (String × Event)
  | .timeout =>
    .error { reason := "timeout", detail := some ("no reply within " ++ timeout.shown ++ "s") }
  | .failure message => .error { reason := "transport_error", detail := some message }
  | .answer status body =>
    if !address.isAbsolute then .error notJson
    else if status < 200 || 300 ≤ status then
      .error { reason := "http_status", detail := some (toString status) }
    else (readBody halves body).map fun (text, fields) => (text, c.replyEvent fields)

/-- Why a client has no text to give. -/
inductive Refusal where
  | address (e : AddressError)
  | generation (e : GenerationError)
  deriving DecidableEq, Repr

/-- A way of sending calls, with the characters that stand for halves in what comes back. -/
structure Channel where
  send : Call → Value → Exchange
  halves : StandIns

/-- The calls of a request over a channel, and the text it brings with what is logged. A host that
is not in ASCII cannot be called. -/
def converse (c : Client) (channel : Channel) (prompt directives : String) (maxTokens : Int)
    (timeout : Value) : List Call × Except Refusal (String × Event) :=
  let timeout :=
    match timeout with
    | .null => defaultTimeout
    | t => t
  match c.endpoint with
  | .error e => ([], .error (.address e))
  | .ok address =>
    if address.host.toList.all fun c => c.toNat < 128 then
      let call := c.call address prompt directives maxTokens
      let reply := c.readReply channel.halves address timeout (channel.send call timeout)
      ([call], reply.mapError .generation)
    else ([], .error (.generation notJson))

/-- The reply to a request over a channel (`call_generate`). -/
def ask (c : Client) (channel : Channel) (prompt directives : String) (maxTokens : Int)
    (timeout : Value) : Reply :=
  match (c.converse channel prompt directives maxTokens timeout).2 with
  | .ok (text, _) => .text text
  | .error (.generation e) => .failed e
  | .error (.address e) => .crashed e.message

/-- A client as a service that renders markup. -/
def generator (c : Client) (channel : Channel) : Generator :=
  fun r timeout => c.ask channel r.prompt r.directives r.maxTokens timeout

/-- A client as a service that mends texts. -/
def mender (c : Client) (channel : Channel) : Mender :=
  fun r timeout => c.ask channel r.prompt r.directives r.maxTokens timeout

end Client

end PageCompiler
