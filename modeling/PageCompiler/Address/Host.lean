import PageCompiler.Address.Basic
import PageCompiler.Address.Escape
import PageCompiler.Address.Label
import PageCompiler.Decimal.Literal

/-!
# `PageCompiler.Address.Host`: hosts and ports

A host is given by four numbers, by groups of hexadecimal digits in brackets, or by a name.
`readHost` checks it and gives the form in which it is sent.
-/

set_option autoImplicit false

namespace PageCompiler.Address

open Text

/-- Four runs of digits with points between them. -/
def looksFourPart (host : List Char) : Bool :=
  let runs := host.splitOnP (· == '.')
  runs.length == 4 && runs.all fun run => !run.isEmpty && run.all isAsciiDigit

/-- A number of one byte without needless zeros. -/
def isOctet (s : List Char) : Bool :=
  !s.isEmpty && s.all isAsciiDigit && s.length ≤ 3 && (s == ['0'] || s.head? != some '0') &&
    digitsValue s ≤ 255

/-- Four numbers of one byte with points between them. -/
def isFourPart (s : List Char) : Bool :=
  let octets := s.splitOnP (· == '.')
  octets.length == 4 && octets.all isOctet

/-- A group of one to four hexadecimal digits. -/
def isGroup (s : List Char) : Bool :=
  !s.isEmpty && s.length ≤ 4 && s.all isHexDigit

/-- The groups of an address, with two zero groups in the place of a part of four numbers at the
end. -/
def widen? (groups : List (List Char)) : Option (List (List Char)) :=
  match groups.getLast? with
  | some last =>
    if last.contains '.' then
      if isFourPart last then some (groups.dropLast ++ [['0'], ['0']]) else none
    else some groups
  | none => none

/-- The number of groups on one side of a gap. -/
def side? (groups : List (List Char)) : Option Nat :=
  if groups == [[]] then some 0
  else if groups.all isGroup then some groups.length
  else none

/-- Eight groups, or fewer with one gap. -/
def areGroups (groups : List (List Char)) : Bool :=
  let inner := (groups.drop 1).dropLast
  match inner.count [] with
  | 0 => groups.length == 8 && groups.all isGroup
  | 1 =>
    let gap := 1 + inner.findIdx List.isEmpty
    match side? (groups.take gap), side? (groups.drop (gap + 1)) with
    | some left, some right => left + right ≤ 7
    | _, _ => false
  | _ => false

/-- Groups of hexadecimal digits with colons between them. A percent sign and the name of a zone may
follow. -/
def isGrouped (s : List Char) : Bool :=
  let zone := s.dropWhile (· != '%')
  let groups := (s.takeWhile (· != '%')).splitOnP (· == ':')
  (zone.isEmpty || (zone.length ≥ 2 && !(zone.drop 1).contains '%')) && 3 ≤ groups.length &&
    ((widen? groups).map areGroups).getD false

/-- A host as it is sent. -/
def readHost (host : List Char) : Except AddressError (List Char) :=
  if host.isEmpty then .ok []
  else if looksFourPart host then
    if isFourPart host then .ok host else .error (.badFourPart (String.ofList host))
  else if host.head? == some '[' && host.getLast? == some ']' && 2 ≤ host.length then
    let inner := (host.drop 1).dropLast
    if isGrouped inner then .ok inner else .error (.badBracketed (String.ofList host))
  else if host.all fun c => c.toNat < 128 then
    .ok (escape keptInHost (host.map asciiLower))
  else
    match hostName? (lower host) with
    | some name => .ok name
    | none => .error (.badName (String.ofList host))

/-- The ports that need not be named, by scheme. -/
def usualPorts : List (String × Int) :=
  [("ftp", 21), ("http", 80), ("https", 443), ("ws", 80), ("wss", 443)]

/-- A port as it is sent. The usual port of a scheme is left out. -/
def readPort (scheme : String) (port : List Char) : Except AddressError (Option Int) :=
  if port.isEmpty then .ok none
  else
    match Decimal.intSetting? port with
    | none => .error (.badPort (String.ofList port))
    | some n => .ok (if usualPorts.contains (scheme, n) then none else some n)

end PageCompiler.Address
