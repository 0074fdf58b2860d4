import PageCompiler.Address.Reader
import PageCompiler.Text.Search

/-!
# `PageCompiler.Server.Route`: what a request asks for

The target of a request is an address. It is completed by the address of the server, and its path
is compared with the paths that are served, with percent escapes resolved. A line feed at the end of
a path does not matter. Methods are compared in upper case.

A target may name another host. The name is not looked up, but it has to be a proper one: it is in
ASCII, and what a name in Punycode denotes is checked.
-/

set_option autoImplicit false

namespace PageCompiler

open Text

/-- What can be asked for. -/
inductive Route where
  | health
  | patterns
  | stats
  /-- The last artifact of a session. -/
  | artifact (session : String)
  | compile
  deriving DecidableEq, Repr

/-- Why a target leads nowhere. -/
inductive TargetError where
  | address (e : AddressError)
  /-- The host and its port are not in ASCII. -/
  | notAscii (authority : String)
  | badName (e : Address.LabelError)
  deriving DecidableEq, Repr

namespace TargetError

/-- A character that is not in ASCII. -/
def isForeign (c : Char) : Bool :=
  128 ≤ c.toNat

/-- The first characters of a text that are not in ASCII, and where they stand. -/
def foreignRun (s : List Char) : String :=
  let start := (s.takeWhile (!isForeign ·)).length
  match (s.drop start).takeWhile isForeign with
  | [c] => "character '" ++ String.ofList (numbered c.toNat) ++ "' in position " ++ toString start
  | run =>
    "characters in position " ++ toString start ++ "-" ++ toString (start + run.length - 1)

/-- What is said about a target that leads nowhere. -/
def message : TargetError → String
  | .address e => e.message
  | .notAscii authority =>
    "'ascii' codec can't encode " ++ foreignRun authority.toList ++ ": ordinal not in range(128)"
  | .badName e => e.message

end TargetError

namespace Route

/-- The address of the server. -/
def home : Address :=
  { Address.empty with scheme := "http", host := "localhost" }

/-- What is wrong with the host of an address. Only names that start in Punycode are looked at. -/
def hostFault? (a : Address) : Option TargetError :=
  let site : Address := { a with userInfo := "" }
  if site.authority.toList.any TargetError.isForeign then some (.notAscii site.authority)
  else if Address.punycodeMark.isPrefixOf a.host.toList then
    (Address.nameFault? a.host.toList).map .badName
  else none

/-- The path to which a target leads. -/
def path (target : String) : Except TargetError (List Char) :=
  match (Address.read target).bind home.under with
  | .error e => .error (.address e)
  | .ok a =>
    match hostFault? a with
    | some e => .error e
    | none => .ok (Address.unescape (if a.path.isEmpty then ['/'] else a.path.toList))

/-- The session in the path of an artifact. -/
def session? (path : List Char) : Option String := do
  let rest ← after? "/v1/sessions/".toList path
  let name := rest.takeWhile (· != '/')
  if !name.isEmpty && rest.dropWhile (· != '/') == "/artifact".toList then
    some (String.ofList name)
  else none

/-- What a path asks for, to the letter. -/
def ofExact? (path : List Char) : Option Route :=
  if path == "/healthz".toList then some .health
  else if path == "/v1/patterns".toList then some .patterns
  else if path == "/v1/stats".toList then some .stats
  else if path == "/v1/compile".toList then some .compile
  else (session? path).map .artifact

/-- What a path asks for. -/
def ofPath? (path : List Char) : Option Route :=
  match ofExact? path with
  | some route => some route
  | none => if path.getLast? == some '\n' then ofExact? path.dropLast else none

/-- The method by which a route is asked for. -/
def method : Route → String
  | .compile => "POST"
  | _ => "GET"

/-- The capitals of a letter, as far as they are in ASCII. -/
def capitals (c : Char) : List Char :=
  if 'a' ≤ c && c ≤ 'z' then [Char.ofNat (c.toNat - 32)]
  else if c == 'ſ' then ['S']
  else if c == 'ﬅ' || c == 'ﬆ' then ['S', 'T']
  else [c]

/-- The route is asked for by a method. -/
def isAskedBy (route : Route) (method : String) : Bool :=
  method.toList.flatMap capitals == route.method.toList

end Route

end PageCompiler
