/-!
# `PageCompiler.Markup.Css`: style rules

A style sheet is a list of rules. A rule is written with its selector and an opening brace on the
first line, one declaration to a line, and the closing brace on the last.
-/

set_option autoImplicit false

namespace PageCompiler.Markup

/-- A style rule: a selector and its declarations. -/
structure Rule where
  selector : String
  declarations : List (String × String)
  deriving DecidableEq, Repr

/-- The lines of a rule. -/
def Rule.lines (r : Rule) : List String :=
  (r.selector ++ " \x7b") ::
    (r.declarations.map fun (name, value) => "  " ++ name ++ ": " ++ value ++ ";") ++ ["\x7d"]

/-- The text of a style sheet. -/
def styleSheet (rules : List Rule) : String :=
  "\n".intercalate (rules.flatMap Rule.lines)

end PageCompiler.Markup
