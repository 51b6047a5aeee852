import DollarMath.Settings.Value
import DollarMath.Text.CodePoint

/-!
Writing values as JSON, one member or item on a line, indented by two spaces a level.
-/

namespace DollarMath.Json

def quotedChar (char : Char) : List Char :=
  if char = '"' || char = '\\' then ['\\', char]
  else if char = '\n' then ['\\', 'n']
  else if char = '\r' then ['\\', 'r']
  else if char = '\t' then ['\\', 't']
  else if char = '\x08' then ['\\', 'b']
  else if char = '\x0c' then ['\\', 'f']
  else if char.toNat < 0x20 then '\\' :: 'u' :: Text.hexDigits 4 char.toNat
  else [char]

def quoted (text : String) : String :=
  String.ofList ('"' :: text.toList.flatMap quotedChar ++ ['"'])

def bracketed (opening closing indent : String) : List String → String
  | [] => opening ++ closing
  | parts =>
    opening ++ "\n" ++ String.intercalate ",\n" (parts.map (indent ++ "  " ++ ·)) ++ "\n" ++
      indent ++ closing

/-- The text of a value without parts. What is no text, number or truth value is written as the text
that shows it. -/
def scalarText : Scalar → String
  | .null => "null"
  | .bool value => if value then "true" else "false"
  | .int value => toString value
  | .real value => value.text
  | .text value => quoted value
  | .malformed value => quoted value
  | other => quoted other.shown

mutual

def writeAt (indent : String) : Value → String
  | .scalar value => scalarText value
  | .list items => bracketed "[" "]" indent (itemTexts (indent ++ "  ") items)
  | .set items => bracketed "[" "]" indent (items.map scalarText)
  | .mapping members => bracketed "\x7b" "\x7d" indent (memberTexts (indent ++ "  ") members)

def itemTexts (indent : String) : List Value → List String
  | [] => []
  | item :: items => writeAt indent item :: itemTexts indent items

def memberTexts (indent : String) : Section → List String
  | [] => []
  | member :: members => memberText indent member :: memberTexts indent members

def memberText (indent : String) : Scalar × Value → String
  | (key, value) => quoted (key.text?.getD key.shown) ++ ": " ++ writeAt indent value

end

def write (value : Value) : String :=
  writeAt "" value

end DollarMath.Json
