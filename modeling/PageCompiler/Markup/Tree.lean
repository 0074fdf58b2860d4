/-!
# `PageCompiler.Markup.Tree`: markup trees and how they are laid out

The rules that render components build markup as trees. An `Inline` is laid out on one line. A
`Block` spans lines: its children stand between its tags, two columns further in.

Texts and attribute values in a tree are markup already. Whoever builds a tree escapes what comes
from a document.
-/

set_option autoImplicit false

namespace PageCompiler.Markup

/-- An attribute, with a quoted value or alone. -/
structure Attr where
  name : String
  value : Option String
  deriving DecidableEq, Repr

/-- An attribute with a value. -/
def attr (name value : String) : Attr := { name, value := some value }

/-- An attribute without a value. -/
def flag (name : String) : Attr := { name, value := none }

/-- An attribute that is left out if its value is empty. -/
def attr? (name value : String) : List Attr :=
  if value.isEmpty then [] else [attr name value]

/-- Markup on one line. -/
inductive Inline where
  | text (content : String)
  | element (tag : String) (attrs : List Attr) (children : List Inline)
  /-- An element that has no content and no closing tag. -/
  | void (tag : String) (attrs : List Attr)
  /-- An element that is closed in its opening tag. -/
  | closed (tag : String) (attrs : List Attr)
  deriving Repr

/-- Markup that spans lines. -/
inductive Block where
  | line (content : Inline)
  /-- Several pieces on one line. -/
  | run (pieces : List Inline)
  | block (tag : String) (attrs : List Attr) (children : List Block)
  deriving Repr

/-- An attribute behind a tag name. -/
def Attr.write (a : Attr) : String :=
  match a.value with
  | some value => " " ++ a.name ++ "=\"" ++ value ++ "\""
  | none => " " ++ a.name

/-- Attributes behind a tag name. -/
def writeAttrs (attrs : List Attr) : String :=
  String.join (attrs.map Attr.write)

/-- An opening tag. -/
def openTag (tag : String) (attrs : List Attr) : String :=
  "<" ++ tag ++ writeAttrs attrs ++ ">"

/-- A closing tag. -/
def closeTag (tag : String) : String :=
  "</" ++ tag ++ ">"

mutual

/-- The text of markup on one line. -/
def Inline.write : Inline → String
  | .text content => content
  | .element tag attrs children => openTag tag attrs ++ writeAll children ++ closeTag tag
  | .void tag attrs => openTag tag attrs
  | .closed tag attrs => "<" ++ tag ++ writeAttrs attrs ++ " />"

/-- The text of pieces on one line. -/
def writeAll : List Inline → String
  | [] => ""
  | piece :: rest => piece.write ++ writeAll rest

end

/-- Lines two columns further in. -/
def indent (lines : List String) : List String :=
  lines.map fun line => "  " ++ line

mutual

/-- The lines of markup. -/
def Block.lines : Block → List String
  | .line content => [content.write]
  | .run pieces => [writeAll pieces]
  | .block tag attrs children =>
    openTag tag attrs :: indent (linesAll children) ++ [closeTag tag]

/-- The lines of markup blocks one after another. -/
def linesAll : List Block → List String
  | [] => []
  | b :: rest => b.lines ++ linesAll rest

end

/-- The text of markup blocks one after another. -/
def layOut (blocks : List Block) : String :=
  "\n".intercalate (linesAll blocks)

/-- An element with text inside, on a line of its own. -/
def leaf (tag : String) (attrs : List Attr) (content : String) : Block :=
  .line (.element tag attrs [.text content])

/-- The text that shows the value of an expression when the page runs. -/
def mustache (expression : String) : String :=
  "\x7b\x7b " ++ expression ++ " \x7d\x7d"

end PageCompiler.Markup
