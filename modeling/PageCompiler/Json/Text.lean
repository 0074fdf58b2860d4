import PageCompiler.Decimal.Layout
import PageCompiler.Text.Digit
import PageCompiler.Value

/-!
# `PageCompiler.Json.Text`: values as JSON text

Values are written as JSON in three places: in log lines and output files, compactly and with
sorted keys; in the generated script, as literals with the order of the document; and in reports
for people, indented. `Json.Style` holds what differs.

Strings are quoted by `Json.quote`. Quotation marks, backslashes and control characters are
escaped. Where a style asks for ASCII, all other characters beyond ASCII are escaped too, in UTF-16
units.
-/

set_option autoImplicit false

namespace PageCompiler.Json

/-- A UTF-16 unit as an escape sequence. -/
def unitEscape (n : Nat) : List Char :=
  '\\' :: 'u' :: Text.hexDigits 4 n

/-- One character inside of quotes. -/
def quoteChar (ascii : Bool) (c : Char) : List Char :=
  if c == '"' then ['\\', '"']
  else if c == '\\' then ['\\', '\\']
  else if c == '\n' then ['\\', 'n']
  else if c == '\r' then ['\\', 'r']
  else if c == '\t' then ['\\', 't']
  else if c.toNat == 0x0c then ['\\', 'f']
  else if c.toNat == 0x08 then ['\\', 'b']
  else if c.toNat < 0x20 then unitEscape c.toNat
  else if ascii && 0x7e < c.toNat then
    if c.toNat < 0x10000 then unitEscape c.toNat
    else
      let n := c.toNat - 0x10000
      unitEscape (0xd800 + n / 0x400) ++ unitEscape (0xdc00 + n % 0x400)
  else [c]

/-- A quoted string. -/
def quote (ascii : Bool) (s : String) : String :=
  "\"" ++ String.ofList (s.toList.flatMap (quoteChar ascii)) ++ "\""

/-- The choices of a way to write JSON. -/
structure Style where
  /-- What stands between two items. -/
  itemSeparator : String
  /-- What stands between a key and its value. -/
  keySeparator : String

/-- Without white space. -/
def Style.compact : Style := { itemSeparator := ",", keySeparator := ":" }

/-- A blank after each separator. -/
def Style.spaced : Style := { itemSeparator := ", ", keySeparator := ": " }

/-- The text of a truth value. -/
def ofBool (b : Bool) : String :=
  if b then "true" else "false"

mutual

/-- A value in a style, with the fields of maps in their order. -/
def write (style : Style) : Value → String
  | .null => "null"
  | .bool b => ofBool b
  | .int n => toString n
  | .float x => Decimal.Layout.data.write x
  | .text s => quote false s
  | .list items => "[" ++ style.itemSeparator.intercalate (writeItems style items) ++ "]"
  | .map fields =>
    "\x7b" ++ style.itemSeparator.intercalate (writeFields style fields) ++ "\x7d"

/-- The items of a list in a style. -/
def writeItems (style : Style) : List Value → List String
  | [] => []
  | v :: rest => write style v :: writeItems style rest

/-- The fields of a map in a style. -/
def writeFields (style : Style) : List (String × Value) → List String
  | [] => []
  | (key, v) :: rest =>
    (quote false key ++ style.keySeparator ++ write style v) :: writeFields style rest

end

/-- Fields in the order of their names. -/
def sortFields (fields : Fields) : Fields :=
  fields.mergeSort fun a b => a.1 ≤ b.1

mutual

/-- A value with the fields of all its maps in the order of their names. -/
def sorted : Value → Value
  | .list items => .list (sortedItems items)
  | .map fields => .map (sortFields (sortedFields fields))
  | v => v

/-- Items with the fields of all their maps in the order of their names. -/
def sortedItems : List Value → List Value
  | [] => []
  | v :: rest => sorted v :: sortedItems rest

/-- Fields whose values have their own fields in order. -/
def sortedFields : List (String × Value) → List (String × Value)
  | [] => []
  | (key, v) :: rest => (key, sorted v) :: sortedFields rest

end

/-- The text of a record: compact, with sorted keys. -/
def record (fields : Fields) : String :=
  write .compact (sorted (.map fields))

/-- The literal of a value in the generated script. -/
def literal (v : Value) : String :=
  write .spaced v

/-- The start of a line at a depth of an indented text. -/
def indentation (depth : Nat) : String :=
  String.ofList (List.replicate (2 * depth) ' ')

/-- Items between brackets, one to a line. Nothing stands between the brackets if there are no
items. -/
def indentedBlock (depth : Nat) (opening closing : String) (items : List String) : String :=
  if items.isEmpty then opening ++ closing
  else
    opening ++ "\n" ++
      ",\n".intercalate (items.map fun item => indentation (depth + 1) ++ item) ++
      "\n" ++ indentation depth ++ closing

mutual

/-- A value in indented lines. -/
def indented (depth : Nat) : Value → String
  | .list items => indentedBlock depth "[" "]" (indentedItems (depth + 1) items)
  | .map fields => indentedBlock depth "\x7b" "\x7d" (indentedFields (depth + 1) fields)
  | .null => "null"
  | .bool b => ofBool b
  | .int n => toString n
  | .float x => Decimal.Layout.data.write x
  | .text s => quote false s

/-- Items in indented lines. -/
def indentedItems (depth : Nat) : List Value → List String
  | [] => []
  | v :: rest => indented depth v :: indentedItems depth rest

/-- Fields in indented lines. -/
def indentedFields (depth : Nat) : List (String × Value) → List String
  | [] => []
  | (key, v) :: rest =>
    (quote false key ++ ": " ++ indented depth v) :: indentedFields depth rest

end

end PageCompiler.Json
