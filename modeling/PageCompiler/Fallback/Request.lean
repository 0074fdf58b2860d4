import PageCompiler.Service.Basic

/-!
# `PageCompiler.Fallback.Request`: asking for what no rule renders

The request holds the document, the markup that rules have rendered, and the components to render.
Document and markup are cut to the lengths that the settings allow. A cut is marked where there is
room for the mark.
-/

set_option autoImplicit false

namespace PageCompiler.Fallback

/-- The mark of a cut. -/
def truncationMark : String := "\n... [truncated]"

/-- The first `n` characters of a text. A negative `n` counts from the end. -/
def takeChars (s : List Char) (n : Int) : List Char :=
  if 0 ≤ n then s.take n.toNat else s.take (s.length - n.natAbs)

/-- A text cut to a length. -/
def truncate (s : String) (limit : Int) : String :=
  let cs := s.toList
  if (cs.length : Int) ≤ limit then s
  else if limit ≤ truncationMark.length then String.ofList (takeChars cs limit)
  else String.ofList (takeChars cs (limit - truncationMark.length)) ++ truncationMark

/-- What opens the answer of a service. -/
def artifactOpen : String := "<apml-artifact>"

/-- What closes the answer of a service. -/
def artifactClose : String := "</apml-artifact>"

/-- The names that a service should use, unless others are given. -/
def defaultStyleGuide : String :=
  "\n".intercalate
    ["- Data: appTitle, user_name, user_description, current_view",
     "- Methods: submitForm, handleClick, nextStep, previousStep",
     "- Classes: app-container, component, btn, btn-primary, btn-secondary, modal-overlay",
     "- Colors: #0a0a0a (background), #00ff88 (primary), #ffffff (text)"]

/-- What a service is told about rendering components. -/
def directives : String :=
  "\n".intercalate
    ["You compile APML components into Vue 3 template markup.",
     "",
     "Rules:",
     "1. Never change the existing rule-generated fragments; only add what is missing.",
     "2. Reuse the variable, method and class names from the style guide.",
     "3. Add accessibility attributes (aria-*, role) where they apply.",
     "4. Do not emit <html>, <body> or <script> elements.",
     "",
     "Answer with exactly one block:",
     artifactOpen,
     "<fragment component=\"component_name\">...template markup...</fragment>",
     "<methods>optional Vue method definitions, one per line group</methods>",
     "<style>optional CSS</style>",
     artifactClose]

/-- The markup of a component between the tags of a fragment. -/
def fragmentText (component markup : String) : String :=
  "<fragment component=\"" ++ component ++ "\">\n" ++ markup ++ "\n</fragment>"

/-- The markup of components, one below the other. -/
def fragmentsText (fragments : Assoc String) : String :=
  "\n".intercalate (fragments.map fun (name, markup) => fragmentText name markup)

/-- A part of a prompt that is left out if it has no content. -/
def optionalPart (heading content : String) : List String :=
  if content.isEmpty then [] else [heading ++ "\n" ++ content]

/-- The request for the markup of components (`build_fallback_request`). -/
def request (documentText : String) (ruleFragments : Assoc String) (unresolved : List String)
    (styleGuide : String) (settings : CompilerSettings) : FallbackRequest :=
  let document := truncate documentText settings.maxDocumentChars
  let parts :=
    ["Compile this APML to Vue 3 fragments:\n\n" ++ document] ++
      optionalPart "EXISTING FRAGMENTS (keep, do not regenerate):"
        (truncate (fragmentsText ruleFragments) settings.maxFragmentChars) ++
      (if unresolved.isEmpty then []
       else ["FOCUS ON THESE COMPONENTS:\n" ++ ", ".intercalate unresolved]) ++
      optionalPart "STYLE GUIDE:" styleGuide
  { prompt := "\n\n".intercalate parts, maxTokens := settings.fallbackMaxTokens, directives,
    documentText := document, ruleFragments, unresolved, styleGuide }

end PageCompiler.Fallback
