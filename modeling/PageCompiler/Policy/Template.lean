import PageCompiler.Decimal.Literal
import PageCompiler.Text.Quoted
import PageCompiler.Text.Search

/-!
# `PageCompiler.Policy.Template`: replacement templates

The target of a class alias is a template. A backslash in it gives the next character a meaning:
`\g<0>` stands for the text that is replaced, some letters stand for control characters, digits
stand for a character by its octal code, and a backslash stands for itself. Anything else behind a
backslash that is an ASCII letter, or refers to a group that is not there, is refused.

`Template.parse` reads a template as a list of parts, `Template.fill` puts a text into it.
-/

set_option autoImplicit false

namespace PageCompiler

open Text

/-- Why a template is refused, and at which character. -/
inductive TemplateError where
  /-- A backslash ends the template. -/
  | danglingEscape (position : Nat)
  | missingOpening (position : Nat)
  | missingName (position : Nat)
  | unterminatedName (position : Nat)
  | badName (name : String) (position : Nat)
  | unknownName (name : String)
  | badReference (group : Nat) (position : Nat)
  | badOctal (digits : String) (position : Nat)
  | badEscape (c : Char) (position : Nat)
  deriving DecidableEq, Repr

/-- What is said about a template that is refused. -/
def TemplateError.message : TemplateError → String
  | .danglingEscape n => "bad escape (end of pattern) at position " ++ toString n
  | .missingOpening n => "missing < at position " ++ toString n
  | .missingName n => "missing group name at position " ++ toString n
  | .unterminatedName n => "missing >, unterminated name at position " ++ toString n
  | .badName name n =>
    "bad character in group name " ++ quoted name ++ " at position " ++ toString n
  | .unknownName name => "unknown group name " ++ quoted name
  | .badReference group n =>
    "invalid group reference " ++ toString group ++ " at position " ++ toString n
  | .badOctal digits n =>
    "octal escape value \\" ++ digits ++ " outside of range 0-0o377 at position " ++ toString n
  | .badEscape c n =>
    "bad escape \\" ++ String.ofList [c] ++ " at position " ++ toString n

/-- The name under which a refused template is reported. -/
def TemplateError.typeName : TemplateError → String
  | .unknownName _ => "IndexError"
  | _ => "error"

namespace Template

/-- A part of a template: a character, or the text that is replaced. -/
inductive Part where
  | char (c : Char)
  | whole
  deriving DecidableEq, Repr

/-- A character of a template, alone or behind a backslash. -/
inductive Token where
  | plain (c : Char)
  | escaped (c : Char)
  /-- A backslash at the end. -/
  | dangling
  deriving DecidableEq, Repr

/-- The tokens of a template. -/
def tokens : List Char → List Token
  | [] => []
  | ['\\'] => [.dangling]
  | '\\' :: c :: rest => .escaped c :: tokens rest
  | c :: rest => .plain c :: tokens rest

/-- The characters of a token. -/
def Token.chars : Token → List Char
  | .plain c => [c]
  | .escaped c => ['\\', c]
  | .dangling => ['\\']

/-- The characters that letters and the backslash stand for. -/
def control? (c : Char) : Option Char :=
  match c with
  | 'a' => some '\x07'
  | 'b' => some '\x08'
  | 'f' => some '\x0c'
  | 'n' => some '\n'
  | 'r' => some '\r'
  | 't' => some '\t'
  | 'v' => some '\x0b'
  | '\\' => some '\\'
  | _ => none

/-- Octal digits. -/
def isOctal (c : Char) : Bool :=
  '0' ≤ c && c ≤ '7'

/-- The number of an octal text. -/
def octalValue (ds : List Char) : Nat :=
  ds.foldl (fun n c => 8 * n + (c.toNat - '0'.toNat)) 0

/-- The first tokens up to a closing angle bracket, and the tokens behind it. -/
def groupName? : List Token → Option (List Char × List Token)
  | [] => none
  | .plain '>' :: rest => some ([], rest)
  | t :: rest => (groupName? rest).map fun (name, r) => (t.chars ++ name, r)

/-- The part that a group name stands for. `position` is where the name starts. There are no
groups but the whole, whose number is zero, so no identifier names one. -/
def reference (name : List Char) (position : Nat) : Except TemplateError Part :=
  if isIdentifier name then .error (.unknownName (String.ofList name))
  else
    match Decimal.intSetting? name with
    | some (.ofNat 0) => .ok .whole
    | some (.ofNat group) => .error (.badReference group position)
    | _ => .error (.badName (String.ofList name) position)

/-- Reads the parts of a template from its tokens, the first of which stands at `position`.
`size` is the length of the template. -/
def parts (fuel size position : Nat) (ts : List Token) : Except TemplateError (List Part) :=
  match fuel, ts with
  | 0, _ | _, [] => .ok []
  | _, .dangling :: _ => .error (.danglingEscape position)
  | _, t :: .dangling :: _ => .error (.danglingEscape (position + t.chars.length))
  | fuel + 1, .plain c :: rest => return .char c :: (← parts fuel size (position + 1) rest)
  | fuel + 1, .escaped c :: rest =>
    if c == 'g' then
      match rest with
      | .plain '<' :: inner =>
        match groupName? inner with
        | none =>
          if inner.contains .dangling then .error (.danglingEscape (size - 1))
          else if inner.isEmpty then .error (.missingName size)
          else .error (.unterminatedName (position + 3))
        | some (name, after) =>
          if after.head? == some .dangling then .error (.danglingEscape (size - 1))
          else if name.isEmpty then .error (.missingName (position + 3))
          else do
            let p ← reference name (position + 3)
            return p :: (← parts fuel size (position + 4 + name.length) after)
      | _ => .error (.missingOpening (position + 2))
    else if isAsciiDigit c then
      let digit? (p : Char → Bool) (ts : List Token) : Option (Char × List Token) :=
        match ts with
        | .plain d :: rest => if p d then some (d, rest) else none
        | _ => none
      if c == '0' then
        let (ds, rest) :=
          match digit? isOctal rest with
          | none => ([c], rest)
          | some (d, rest) =>
            match digit? isOctal rest with
            | none => ([c, d], rest)
            | some (e, rest) => ([c, d, e], rest)
        return .char (Char.ofNat (octalValue ds % 256)) ::
          (← parts fuel size (position + 1 + ds.length) rest)
      else
        match digit? isAsciiDigit rest with
        | none => .error (.badReference (digitsValue [c]) (position + 1))
        | some (d, rest) =>
          match (if isOctal c && isOctal d then digit? isOctal rest else none) with
          | none =>
            if rest.head? == some .dangling then .error (.danglingEscape (size - 1))
            else .error (.badReference (digitsValue [c, d]) (position + 1))
          | some (e, rest) =>
            let n := octalValue [c, d, e]
            if rest.head? == some .dangling then .error (.danglingEscape (size - 1))
            else if 0xff < n then .error (.badOctal (String.ofList [c, d, e]) position)
            else return .char (Char.ofNat n) :: (← parts fuel size (position + 4) rest)
    else
      match control? c with
      | some control => return .char control :: (← parts fuel size (position + 2) rest)
      | none =>
        if isAsciiLetter c then .error (.badEscape c position)
        else return .char '\\' :: .char c :: (← parts fuel size (position + 2) rest)

/-- Reads a template. -/
def parse (s : List Char) : Except TemplateError (List Part) :=
  parts (s.length + 1) s.length 0 (tokens s)

/-- A template with the text that is replaced put in. -/
def fill (replaced : List Char) (ps : List Part) : List Char :=
  ps.flatMap fun
    | .char c => [c]
    | .whole => replaced

end Template

end PageCompiler
