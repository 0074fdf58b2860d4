import PageCompiler.Address.Host

/-!
# `PageCompiler.Address.Reader`: addresses from text

`Address.read` takes a text apart, checks its parts and brings them into the form in which they are
sent. `Address.under` completes an address that is not absolute by a base.
-/

set_option autoImplicit false

namespace PageCompiler.Address

open Text

/-- The most characters of an address or of one of its parts. -/
def maxLength : Nat := 65536

/-- A control character of ASCII. -/
def isControl (c : Char) : Bool :=
  c.toNat < 0x20 || c.toNat == 0x7f

/-- Characters of a scheme behind its first letter. -/
def isSchemeChar (c : Char) : Bool :=
  isAsciiLetter c || isAsciiDigit c || c == '+' || c == '.' || c == '-'

/-- The scheme of an address in front of its first colon, and what follows. -/
def splitScheme (s : List Char) : List Char × List Char :=
  let scheme := s.takeWhile isSchemeChar
  match s.dropWhile isSchemeChar with
  | ':' :: rest =>
    if ((scheme.head?).map isAsciiLetter).getD true then (scheme, rest) else ([], s)
  | _ => ([], s)

/-- The authority behind two slashes, and what follows. -/
def splitAuthority (s : List Char) : List Char × List Char :=
  match s with
  | '/' :: '/' :: rest =>
    let isEnd (c : Char) : Bool := c == '/' || c == '?' || c == '#'
    (rest.takeWhile (!isEnd ·), rest.dropWhile (!isEnd ·))
  | _ => ([], s)

/-- What stands before the first `c`, and what stands behind it if there is one. -/
def cutAt (c : Char) (s : List Char) : List Char × Option (List Char) :=
  match s.dropWhile (· != c) with
  | [] => (s, none)
  | _ :: rest => (s.takeWhile (· != c), some rest)

/-- The part in front of the last `@`, and the rest. -/
def splitUserInfo (s : List Char) : List Char × List Char :=
  if s.contains '@' then
    let rest := (s.reverse.takeWhile (· != '@')).reverse
    (s.take (s.length - rest.length - 1), rest)
  else ([], s)

/-- The host, in brackets or up to a colon, and the port. -/
def splitHost (s : List Char) : List Char × List Char :=
  let tail := (s.reverse.takeWhile (· != ']')).reverse
  let (host, rest) :=
    if s.head? == some '[' && s.contains ']' then (s.take (s.length - tail.length), tail)
    else (s.takeWhile (· != ':'), s.dropWhile (· != ':'))
  match rest with
  | ':' :: port => (host, port)
  | _ => (host, rest)

/-- Follows one step of a path. `done` holds the steps so far, the last first. -/
def followStep (done : List (List Char)) (step : List Char) : List (List Char) :=
  if step == ['.'] then done
  else if step == ['.', '.'] then (if done == [[]] then done else done.drop 1)
  else step :: done

/-- A path without the steps that stay in place or go back. -/
def straighten (path : List Char) : List Char :=
  ['/'].intercalate ((path.splitOnP (· == '/')).foldl followStep []).reverse

/-- An address of parts. A path that stands alone must not look as if there were other parts. -/
def ofParts (scheme userInfo host : String) (port : Option Int) (path : List Char)
    (query fragment : Option (List Char)) : Except AddressError Address :=
  let alone := scheme.isEmpty && userInfo.isEmpty && host.isEmpty && port.isNone
  if alone && ['/', '/'].isPrefixOf path then .error .doubleSlash
  else if alone && path.head? == some ':' then .error .leadingColon
  else
    let path := if alone then path else straighten path
    .ok
      { scheme, userInfo, host, port,
        path := String.ofList (escape keptInPath path),
        query := query.map fun q => String.ofList (escape keptInQuery q),
        fragment := fragment.map fun f => String.ofList (escape keptInFragment f) }

/-- Reads an address. -/
def read (s : String) : Except AddressError Address := do
  let cs := s.toList
  if maxLength < cs.length then throw .tooLong
  match cs.find? isControl with
  | some c => throw (.unprintable c (cs.takeWhile (· != c)).length)
  | none =>
    let (scheme, rest) := splitScheme cs
    let (authority, rest) := splitAuthority rest
    let (rest, fragment) := cutAt '#' rest
    let (path, query) := cutAt '?' rest
    let (userInfo, rest) := splitUserInfo authority
    let (host, port) := splitHost rest
    let host ← readHost host
    let port ← readPort (String.ofList scheme) port
    ofParts (String.ofList (scheme.map asciiLower))
      (String.ofList (escape keptInUserInfo userInfo)) (String.ofList host) port path query
      fragment

/-- An address with another path and query. -/
def withTarget (a : Address) (target : List Char) : Except AddressError Address :=
  let (path, query) := cutAt '?' target
  if maxLength < path.length then .error (.partTooLong "path")
  else if maxLength < (query.getD []).length then .error (.partTooLong "query")
  else ofParts a.scheme a.userInfo a.host a.port path query (a.fragment.map String.toList)

/-- An address, completed by a base if it is not absolute: its path is taken from the base on. -/
def under (base a : Address) : Except AddressError Address :=
  if a.isAbsolute then .ok a
  else
    let start := base.target.toList
    let start := if start.getLast? == some '/' then start else start ++ ['/']
    base.withTarget (start ++ a.target.toList.dropWhile (· == '/'))

end PageCompiler.Address
