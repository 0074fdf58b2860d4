import PageCompiler.Fallback.Request
import PageCompiler.Fragment
import PageCompiler.Keyword
import PageCompiler.Text.Lines

/-!
# `PageCompiler.Fallback.Bundle`: reading the answer of a service

The answer of a service is free text with one marked block in it. The block holds fragments, each
with the name of a component, and at most one part with methods and one with style. `Bundle.read`
takes them out. It refuses an answer without the block or without fragments, and an answer with a
fragment that cannot be used.
-/

set_option autoImplicit false

namespace PageCompiler

open Text

/-- Fragments in the order of the answer, with methods and style. -/
structure Bundle where
  fragments : List Fragment
  methods : String
  style : String
  deriving Inhabited, Repr

/-- Why an answer is refused. -/
inductive ExtractionError where
  | missingMarkers
  | noFragments
  | invalidName (component : String)
  | duplicate (component : String)
  | forbiddenElement (component : String)
  | emptyFragment (component : String)
  deriving DecidableEq, Repr

namespace ExtractionError

/-- The code under which a refusal is reported. -/
def reason : ExtractionError → String
  | .missingMarkers => "missing_markers"
  | .noFragments => "no_fragments"
  | .invalidName _ => "invalid_component_name"
  | .duplicate _ => "duplicate_component"
  | .forbiddenElement _ => "forbidden_element"
  | .emptyFragment _ => "empty_fragment"

/-- The component that caused a refusal. -/
def component? : ExtractionError → Option String
  | .missingMarkers | .noFragments => none
  | .invalidName c | .duplicate c | .forbiddenElement c | .emptyFragment c => some c

/-- What is said about a refusal. -/
def message (e : ExtractionError) : String :=
  match e.component? with
  | some c => e.reason ++ ": " ++ c
  | none => e.reason

end ExtractionError

namespace Bundle

/-- The text in front of the last place where `stop` stands. -/
def beforeLast? (stop : List Char) : List Char → Option (List Char)
  | [] => none
  | c :: s =>
    match beforeLast? stop s with
    | some before => some (c :: before)
    | none => if startsWith stop (c :: s) then some [] else none

/-- The marked block of an answer. -/
def body? (response : List Char) : Option (List Char) := do
  let (_, rest) ← upTo? Fallback.artifactOpen.toList response
  beforeLast? Fallback.artifactClose.toList rest

/-- A tag with white space before its closing bracket, and what follows. -/
def tag? (start : String) (s : List Char) : Option (List Char) := do
  let s ← after? start.toList s
  after? ['>'] (s.dropWhile isBlank)

/-- A fragment: its name and its markup. -/
def fragment : Recogniser (List Char × List Char) := fun _ s => do
  let s ← after? "<fragment".toList s
  let (_, s) ← span1? isBlank s
  let s ← after? "component".toList s
  let s ← after? ['='] (s.dropWhile isBlank)
  let s ← after? ['"'] (s.dropWhile isBlank)
  let name := s.takeWhile (· != '"')
  let s ← after? ['"'] (s.dropWhile (· != '"'))
  let s ← after? ['>'] (s.dropWhile isBlank)
  let (markup, rest) ← untilMatch? (tag? "</fragment") s
  some ((name, markup), rest)

/-- A part of a block: what stands between its tags. -/
def part (name : String) : Recogniser (List Char) := fun _ s => do
  let s ← tag? ("<" ++ name) s
  untilMatch? (tag? ("</" ++ name)) s

/-- An element that no fragment may hold. -/
def forbidden : Recogniser Unit := fun _ s => do
  let s ← after? ['<'] s
  let s := s.dropWhile isBlank
  ["script", "html", "body"].findSome? fun name => do
    let rest ← Keyword.afterFolded? name.toList s
    if followedBy isWord rest then none else some ((), rest)

/-- A text that can name a component. -/
def isName : List Char → Bool
  | [] => false
  | c :: rest => isNameStart c && rest.all isNameChar

/-- A text without line feeds at its ends. -/
def trimFeeds (s : List Char) : List Char :=
  dropRightWhile (· == '\n') (s.dropWhile (· == '\n'))

/-- The least indentation of the lines that are not blank. -/
def commonIndent (ls : List (List Char)) : Nat :=
  ((ls.filter fun l => !allBlank l).map fun l => (l.takeWhile isBlank).length).min?.getD 0

/-- A text moved to the left by its common indentation, without white space at the end of its
lines and without line feeds at its ends. -/
def dedent (s : List Char) : String :=
  let ls := lines s
  let cut := commonIndent ls
  String.ofList (trimFeeds (join ['\n'] (ls.map fun l => trimRight (l.drop cut))))

/-- Checks one fragment. `seen` holds the names of the fragments before it. -/
def check (seen : List String) (name markup : List Char) : Except ExtractionError Fragment :=
  let component := String.ofList (trim name)
  let markup := trimFeeds markup
  if !isName (trim name) then .error (.invalidName component)
  else if seen.contains component then .error (.duplicate component)
  else if (find? forbidden markup).isSome then .error (.forbiddenElement component)
  else if allBlank markup then .error (.emptyFragment component)
  else
    .ok { component, markup := dedent markup, source := .fallback, patternId := none, state := [] }

/-- Checks fragments one after another. -/
def checkAll (seen : List String) :
    List (List Char × List Char) → Except ExtractionError (List Fragment)
  | [] => .ok []
  | (name, markup) :: rest => do
    let f ← check seen name markup
    return f :: (← checkAll (f.component :: seen) rest)

/-- The first part of a name, or nothing. -/
def partText (name : String) (s : List Char) : String :=
  ((find? (part name) s).map dedent).getD ""

/-- Takes the fragments out of an answer (`extract_fallback_artifact`). -/
def read (response : String) : Except ExtractionError Bundle :=
  match body? response.toList with
  | none => .error .missingMarkers
  | some body => do
    let fragments ← checkAll [] (findAll fragment body)
    if fragments.isEmpty then throw .noFragments
    let remainder := replaceAll fragment (fun _ => []) body
    return { fragments, methods := partText "methods" remainder,
             style := partText "style" remainder }

/-- The fragment of a component. -/
def get? (b : Bundle) (component : String) : Option Fragment :=
  b.fragments.find? fun f => f.component == component

end Bundle

end PageCompiler
