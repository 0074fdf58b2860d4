import PageCompiler.Text.Scan

/-!
# `PageCompiler.Artifact.Directive`: names that markup and script refer to

The script of a page must declare what its markup refers to. Handlers are named by event
attributes, state by two-way bindings and loops. Members are named by the lines of a script.
-/

set_option autoImplicit false

namespace PageCompiler.Directive

open Text

/-- Characters of an event attribute behind its mark. -/
def isEventChar (c : Char) : Bool :=
  isWord c || c == '.' || c == ':' || c == '-'

/-- The handler of an event attribute: a name that is called or stands alone. -/
def handler : Recogniser String := fun _ s => do
  let s ← after? ['@'] s
  let (_, s) ← span1? isEventChar s
  let s ← after? "=\"".toList s
  let (name, s) ← ident? (s.dropWhile isBlank)
  match s.dropWhile isBlank with
  | '(' :: rest | '"' :: rest => some (String.ofList name, rest)
  | _ => none

/-- Every point of a text is followed by another character, which is no point. `open_` says that
the text stands behind a point. -/
def pointsSeparate (open_ : Bool) : List Char → Bool
  | [] => !open_
  | c :: s => if c == '.' then !open_ && pointsSeparate true s else pointsSeparate false s

/-- What follows the modifiers of a binding, each a point and a word. -/
def afterModifiers? (s : List Char) : Option (List Char) :=
  let isPart (c : Char) : Bool := isWord c || c == '.'
  let run := s.takeWhile isPart
  if !followedBy isWord run && pointsSeparate false run then some (s.dropWhile isPart) else none

/-- The state variable of a two-way binding. -/
def model : Recogniser String := fun _ s => do
  let s ← after? "v-model".toList s
  let s ← afterModifiers? s
  let s ← after? "=\"".toList s
  let (name, s) ← ident? (s.dropWhile isBlank)
  let rest ← after? ['"'] (s.dropWhile isBlank)
  some (String.ofList name, rest)

/-- The loop variables of a loop: a name, or anything in parentheses. -/
def loopVariables? (s : List Char) : Option (List Char) :=
  match s with
  | '(' :: rest =>
    match rest.dropWhile (· != ')') with
    | ')' :: rest => some rest
    | _ => none
  | _ => (ident? s).map (·.2)

/-- The state variable that a loop runs over. -/
def loop : Recogniser String := fun _ s => do
  let s ← after? "v-for=\"".toList s
  let s ← loopVariables? (s.dropWhile isBlank)
  let (_, s) ← span1? isBlank s
  let s ← (after? "in".toList s).orElse fun _ => after? "of".toList s
  let (_, s) ← span1? isBlank s
  let (name, s) ← ident? s
  let rest ← after? ['"'] (s.dropWhile isBlank)
  some (String.ofList name, rest)

/-- A name in front of one of the `marks`. -/
def nameBefore? (marks : List Char) (s : List Char) : Option (String × List Char) := do
  let (name, s) ← ident? s
  match s.dropWhile isBlank with
  | c :: rest => if marks.contains c then some (String.ofList name, rest) else none
  | [] => none

/-- The name of a member at the start of a line, in front of one of the `marks`. The word for an
asynchronous method may stand in front of the name. -/
def member (marks : List Char) : Recogniser String := fun before s =>
  if atLineStart before then
    let s := s.dropWhile isBlank
    let asynchronous := do
      let s ← after? "async".toList s
      let (_, s) ← span1? isBlank s
      nameBefore? marks s
    asynchronous.orElse fun _ => nameBefore? marks s
  else none

/-- The handlers that markup calls, each once. -/
def handlers (markup : String) : List String :=
  (findAll handler markup.toList).eraseDups

/-- The state variables that markup binds. -/
def models (markup : String) : List String :=
  findAll model markup.toList

/-- The state variables that markup loops over. -/
def loops (markup : String) : List String :=
  findAll loop markup.toList

/-- The methods that a script defines. -/
def methods (script : String) : List String :=
  findAll (member ['(']) script.toList

/-- The members that a script declares, each once: methods and keys. -/
def scriptKeys (script : String) : List String :=
  (findAll (member [':', '(']) script.toList).eraseDups

end PageCompiler.Directive
