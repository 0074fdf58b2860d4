import PageCompiler.Text.Quoted

/-!
# `PageCompiler.Address.Basic`: addresses of services

An address tells how to reach a service and what to ask it for. It is absolute if it names a scheme
and a host. All its parts are in ASCII, or in quotes where a part is refused.
-/

set_option autoImplicit false

namespace PageCompiler

open Text

/-- An address. A part that is not given is empty or missing. -/
structure Address where
  scheme : String
  /-- A name, and a password behind a colon. -/
  userInfo : String
  host : String
  port : Option Int
  path : String
  query : Option String
  fragment : Option String
  deriving DecidableEq, Repr

/-- Why a text is no address. -/
inductive AddressError where
  | tooLong
  /-- A part of an address becomes too long by escapes. -/
  | partTooLong (part : String)
  | unprintable (c : Char) (position : Nat)
  | badFourPart (host : String)
  | badBracketed (host : String)
  | badName (host : String)
  | badPort (port : String)
  /-- A path without a host starts with two slashes. -/
  | doubleSlash
  /-- A path without a scheme starts with a colon. -/
  | leadingColon
  deriving DecidableEq, Repr

/-- What is said about a text that is no address. -/
def AddressError.message : AddressError → String
  | .tooLong => "URL too long"
  | .partTooLong part => "URL component " ++ quoted part ++ " too long"
  | .unprintable c position =>
    "Invalid non-printable ASCII character in URL, " ++ quoted (String.ofList [c]) ++
      " at position " ++ toString position ++ "."
  | .badFourPart host => "Invalid IPv4 address: " ++ quoted host
  | .badBracketed host => "Invalid IPv6 address: " ++ quoted host
  | .badName host => "Invalid IDNA hostname: " ++ quoted host
  | .badPort port => "Invalid port: " ++ quoted port
  | .doubleSlash => "Relative URLs cannot have a path starting with '//'"
  | .leadingColon => "Relative URLs cannot have a path starting with ':'"

namespace Address

/-- The empty address. -/
def empty : Address :=
  { scheme := "", userInfo := "", host := "", port := none, path := "", query := none,
    fragment := none }

/-- An address that names a scheme and a host. -/
def isAbsolute (a : Address) : Bool :=
  !a.scheme.isEmpty && !a.host.isEmpty

/-- The part of an address that names a host, with brackets around a host with colons. -/
def authority (a : Address) : String :=
  (if a.userInfo.isEmpty then "" else a.userInfo ++ "@") ++
    (if a.host.contains ':' then "[" ++ a.host ++ "]" else a.host) ++
    match a.port with
    | some port => ":" ++ toString port
    | none => ""

/-- The part of an address that is asked for: its path and its query. -/
def target (a : Address) : String :=
  (if a.path.isEmpty then "/" else a.path) ++
    match a.query with
    | some query => "?" ++ query
    | none => ""

/-- An address as a text. -/
def text (a : Address) : String :=
  (if a.scheme.isEmpty then "" else a.scheme ++ ":") ++
    (if a.authority.isEmpty then "" else "//" ++ a.authority) ++ a.path ++
    (match a.query with
    | some query => "?" ++ query
    | none => "") ++
    match a.fragment with
    | some fragment => "#" ++ fragment
    | none => ""

end Address

end PageCompiler
