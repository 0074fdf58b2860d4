import PageCompiler.Analysis

/-!
# `PageCompiler.Artifact.Basic`: compiled output

An artifact is what a document compiles to: markup, script and style of a page. `page` puts them
into one file that runs on its own.
-/

set_option autoImplicit false

namespace PageCompiler

/-- Compiled output. -/
structure Artifact where
  title : String
  markup : String
  script : String
  style : String
  /-- Something is missing that was asked for. -/
  degraded : Bool
  strategyUsed : Strategy
  /-- The components that nothing could render. -/
  unresolved : List String
  deriving DecidableEq, Inhabited, Repr

namespace Artifact

/-- The runtime that the script is written for. -/
def runtime : String := "vue@3"

/-- The first line of a script, which names its runtime. -/
def runtimeHeader (marker : String) : String :=
  "/* runtime: " ++ marker ++ " */"

/-- A page that runs on its own (`render_html`). -/
def page (a : Artifact) : String :=
  "\n".intercalate
    ["<!DOCTYPE html>",
     "<html>",
     "<head>",
     "  <meta charset=\"utf-8\">",
     "  <title>" ++ Markup.escape a.title ++ "</title>",
     "  <script src=\"https://unpkg.com/" ++ runtime ++ "/dist/vue.global.js\"></script>",
     "  <style>",
     a.style,
     "  </style>",
     "</head>",
     "<body>",
     a.markup,
     "  <script>",
     a.script,
     "  </script>",
     "</body>",
     "</html>",
     ""]

end Artifact

end PageCompiler
