import PageCompiler.Address.Composition
import PageCompiler.Address.LabelTable
import PageCompiler.Address.Punycode
import PageCompiler.Text.Quoted
import PageCompiler.Text.Search

/-!
# `PageCompiler.Address.Label`: host names in any script

A host name beyond ASCII is sent in ASCII: each of its labels that needs it is written in Punycode
behind `xn--`. Before that, every label is checked, those in ASCII too. `hostName?` gives the name
to send. `nameFault?` checks a name in ASCII by the same rules and tells what is wrong with it.

What a label in Punycode denotes is a list of codes, since some of them may be no characters.
-/

set_option autoImplicit false

namespace PageCompiler.Address

open Text

/-- What is wrong with a host name or a label. Positions count from one. -/
inductive LabelError where
  | nameTooLong
  | tooLong
  | empty
  /-- A letter and its mark stand apart though there is a letter with the mark. -/
  | notComposed
  | reservedHyphens
  | outerHyphen
  | leadingMark
  /-- A sign that joins letters or keeps them apart stands between others. -/
  | badJoiner (code position : Nat) (label : List Nat)
  /-- Such a sign follows a character without a name. -/
  | unknownNeighbour (code position : Nat) (label : List Nat)
  /-- A sign has other neighbours than it needs. -/
  | misplaced (code position : Nat) (label : List Nat)
  | forbidden (code position : Nat) (label : List Nat)
  | unknownDirection (position : Nat) (label : List Nat)
  | badStart (label : List Nat)
  | notRightToLeft (position : Nat)
  | notLeftToRight (position : Nat)
  | mixedDigits
  | badEnd
  /-- Nothing stands behind the mark of Punycode. -/
  | noPunycode
  | hyphenEnd
  | notPunycode
  /-- Punycode writes the label in another way. -/
  | notCanonical
  deriving DecidableEq, Repr

/-- A code as it is named. -/
def codeName (n : Nat) : String :=
  let digits := (Nat.toDigits 16 n).map Char.toUpper
  String.ofList ('U' :: '+' :: List.replicate (4 - digits.length) '0' ++ digits)

/-- What is said about a host name. -/
def LabelError.message : LabelError → String
  | .nameTooLong => "Domain too long"
  | .tooLong => "Label too long"
  | .empty => "Empty Label"
  | .notComposed => "Label must be in Normalization Form C"
  | .reservedHyphens => "Label has disallowed hyphens in 3rd and 4th position"
  | .outerHyphen => "Label must not start or end with a hyphen"
  | .leadingMark => "Label begins with an illegal combining character"
  | .badJoiner code position label =>
    "Joiner " ++ codeName code ++ " not allowed at position " ++ toString position ++ " in " ++
      quotedCodes label
  | .unknownNeighbour code position label =>
    "Unknown codepoint adjacent to joiner " ++ codeName code ++ " at position " ++
      toString position ++ " in " ++ quotedCodes label
  | .misplaced code position label =>
    "Codepoint " ++ codeName code ++ " not allowed at position " ++ toString position ++ " in " ++
      quotedCodes label
  | .forbidden code position label =>
    "Codepoint " ++ codeName code ++ " at position " ++ toString position ++ " of " ++
      quotedCodes label ++ " not allowed"
  | .unknownDirection position label =>
    "Unknown directionality in label " ++ quotedCodes label ++ " at position " ++
      toString position
  | .badStart label =>
    "First codepoint in label " ++ quotedCodes label ++ " must be directionality L, R or AL"
  | .notRightToLeft position =>
    "Invalid direction for codepoint at position " ++ toString position ++
      " in a right-to-left label"
  | .notLeftToRight position =>
    "Invalid direction for codepoint at position " ++ toString position ++
      " in a left-to-right label"
  | .mixedDigits => "Can not mix numeral types in a right-to-left label"
  | .badEnd => "Label ends with illegal codepoint directionality"
  | .noPunycode => "Malformed A-label, no Punycode eligible content found"
  | .hyphenEnd => "A-label must not end with a hyphen"
  | .notPunycode => "Invalid A-label"
  | .notCanonical => "A-label is not the canonical Punycode encoding of its U-label"

/-- The sign that keeps two letters from joining. -/
def nonJoiner : Char := Char.ofNat 0x200c

/-- The sign that makes two letters join. -/
def joiner : Char := Char.ofNat 0x200d

/-- The place of the sign that mutes the vowel of a letter. -/
def muting : Nat := 9

/-- The first letter that is no transparent mark satisfies `p`. -/
def nextLetter (p : Char → Bool) (s : List Char) : Bool :=
  match s.dropWhile isTransparent with
  | c :: _ => p c
  | [] => false

/-- A sign that joins letters or keeps them apart has the neighbours it needs. `before` is the label
before it, the last character first, and `after` the label behind it. -/
def joins (before : List Char) (c : Char) (after : List Char) : Bool :=
  let muted := ((before.head?).map place).getD 0 == muting
  muted ||
    (c == nonJoiner &&
      nextLetter (fun c => inRuns joinsNextRuns c.toNat) before &&
      nextLetter (fun c => inRuns joinsPreviousRuns c.toNat) after)

/-- Signs that need certain neighbours, apart from those that join letters. -/
def needsNeighbours (c : Char) : Bool :=
  let n := c.toNat
  n == 0xb7 || n == 0x375 || n == 0x5f3 || n == 0x5f4 || n == 0x30fb ||
    (0x660 ≤ n && n ≤ 0x669) || (0x6f0 ≤ n && n ≤ 0x6f9)

/-- A sign that needs certain neighbours has them. -/
def hasNeighbours (before : List Char) (c : Char) (after : List Char) : Bool :=
  let label := before ++ c :: after
  let n := c.toNat
  if n == 0xb7 then before.head? == some 'l' && after.head? == some 'l'
  else if n == 0x375 then ((after.head?).map fun c => inRuns greekRuns c.toNat).getD false
  else if n == 0x5f3 || n == 0x5f4 then
    ((before.head?).map fun c => inRuns hebrewRuns c.toNat).getD false
  else if n == 0x30fb then label.any fun c => c.toNat != 0x30fb && inRuns eastAsianRuns c.toNat
  else if n ≤ 0x669 then label.all fun c => !(0x6f0 ≤ c.toNat && c.toNat ≤ 0x6f9)
  else label.all fun c => !(0x660 ≤ c.toNat && c.toNat ≤ 0x669)

/-- What is wrong with a character between others. It is told by its code, and the label by its
codes. -/
def charFault? (codes : List Nat) (before : List Char) (code : Nat) (after : List Char) :
    Option LabelError :=
  let c := Char.ofNat code
  let position := before.length + 1
  if isLabelChar c || isLate c then none
  else if c == nonJoiner || c == joiner then
    if ((before.head?).map isNameless).getD false then
      some (.unknownNeighbour code position codes)
    else if joins before c after then none
    else some (.badJoiner code position codes)
  else if needsNeighbours c then
    if hasNeighbours before c after then none else some (.misplaced code position codes)
  else some (.forbidden code position codes)

/-- The first character that cannot stand where it does. -/
def firstCharFault? (codes : List Nat) (before : List Char) : List Nat → Option LabelError
  | [] => none
  | code :: rest =>
    (charFault? codes before code (rest.map Char.ofNat)).or
      (firstCharFault? codes (Char.ofNat code :: before) rest)

/-- The direction of letters from right to left. -/
def Direction.isRight (d : Direction) : Bool :=
  d == .rightToLeft || d == .arabic

/-- The direction of letters and digits that a label from left to right cannot have. -/
def Direction.turns (d : Direction) : Bool :=
  d.isRight || d == .arabicDigit

/-- What is wrong with the rest of a label from right to left. `closed` tells that the label could
end here, and `digits` which digits it has. -/
def rightToLeftFault? (position : Nat) (closed : Bool) (digits : Option Direction) :
    List Direction → Option LabelError
  | [] => if closed then none else some .badEnd
  | d :: rest =>
    let isDigit := d == .arabicDigit || d == .europeanDigit
    if d == .leftToRight then some (.notRightToLeft position)
    else if isDigit && digits.isSome && digits != some d then some .mixedDigits
    else
      rightToLeftFault? (position + 1) (d.isRight || isDigit || (d == .mark && closed))
        (if isDigit then some d else digits) rest

/-- What is wrong with the directions in a label. Only labels with a letter or a digit from right to
left are looked at. -/
def directionFault? (codes : List Nat) : Option LabelError :=
  let label := codes.map Char.ofNat
  let ds := label.map direction
  if label.any isLate then some (.unknownDirection (label.findIdx isLate + 1) codes)
  else if !ds.any Direction.turns then none
  else
    match ds with
    | [] => none
    | d :: _ =>
      if d.isRight then rightToLeftFault? 1 false none ds
      else if d == .leftToRight then some (.notLeftToRight (ds.findIdx Direction.turns + 1))
      else some (.badStart codes)

/-- The most characters of a label before it is written in ASCII, and of a name. -/
def maxNameLength : Nat := 254

/-- What is wrong with a label, before it is written in ASCII. -/
def labelFault? (codes : List Nat) : Option LabelError :=
  let label := codes.map Char.ofNat
  if label.isEmpty then some .empty
  else if maxNameLength < label.length then some .tooLong
  else if !isComposed label then some .notComposed
  else if (label.drop 2).take 2 == ['-', '-'] then some .reservedHyphens
  else if label.head? == some '-' || label.getLast? == some '-' then some .outerHyphen
  else if ((label.head?).map isMark).getD false then some .leadingMark
  else (firstCharFault? codes [] codes).or (directionFault? codes)

/-- The start of a label in Punycode. -/
def punycodeMark : List Char := "xn--".toList

/-- What is wrong with what stands behind the mark of Punycode. That Punycode writes the label this
way is checked before the label itself. -/
def punycodeFault? (s : List Char) : Option LabelError :=
  if s.isEmpty then some .noPunycode
  else if s.getLast? == some '-' then some .hyphenEnd
  else
    match Punycode.decode? s with
    | none => some .notPunycode
    | some codes =>
      if Punycode.encode codes == s then labelFault? codes else some .notCanonical

/-- What is wrong with a label in ASCII and in lower case. -/
def asciiFault? (label : List Char) : Option LabelError :=
  match after? punycodeMark label with
  | some rest => punycodeFault? rest
  | none => labelFault? (label.map Char.toNat)

/-- A label as it is sent. -/
def labelInAscii? (label : List Char) : Option (List Char) :=
  let sent :=
    if label.all fun c => c.toNat < 128 then
      if (asciiFault? label).isNone then some label else none
    else
      let codes := label.map Char.toNat
      if (labelFault? codes).isNone then some (punycodeMark ++ Punycode.encode codes) else none
  sent.filter fun s => s.length ≤ 63

/-- The full stops of all scripts. -/
def isStop (c : Char) : Bool :=
  c == '.' || c.toNat == 0x3002 || c.toNat == 0xff0e || c.toNat == 0xff61

/-- The labels of a host name, and whether a full stop ends it. -/
def splitName (name : List Char) : List (List Char) × Bool :=
  let labels := name.splitOnP isStop
  if labels.getLast? == some [] && labels != [[]] then (labels.dropLast, true) else (labels, false)

/-- A host name as it is sent, if it is a proper one. A full stop may end it. -/
def hostName? (name : List Char) : Option (List Char) := do
  guard (name.length ≤ maxNameLength)
  let (labels, closed) := splitName name
  let sent ← labels.mapM labelInAscii?
  let full := ['.'].intercalate (if closed then sent ++ [[]] else sent)
  guard (full.length ≤ if closed then maxNameLength else maxNameLength - 1)
  return full

/-- What is wrong with a host name in ASCII. Case does not count. -/
def nameFault? (name : List Char) : Option LabelError :=
  if maxNameLength < name.length then some .nameTooLong
  else (splitName (name.map asciiLower)).1.findSome? asciiFault?

end PageCompiler.Address
