import DollarMath.Settings.Value
import DollarMath.Text.Base64
import DollarMath.Text.CodePoint
import DollarMath.Yaml.Kind

/-!
Writing values as a YAML document: mappings and lists by indentation, texts quoted unless they are
plain words. The program writes with a library, whose documented layout this is. Theorems do not
look into it: that what is written reads back is a hypothesis of theirs, `Session.Rereads`.
-/

namespace DollarMath.Yaml

def quotedChar (char : Char) : List Char :=
  let code := char.toNat
  if char = '"' || char = '\\' then ['\\', char]
  else if char = '\n' then ['\\', 'n']
  else if char = '\t' then ['\\', 't']
  else if code < 0x20 || (0x7F ≤ code && code < 0xA0) then '\\' :: 'x' :: Text.hexDigits 2 code
  else if code = 0x2028 || code = 0x2029 || code = 0xFEFF || code = 0xFFFE || code = 0xFFFF then
    '\\' :: 'u' :: Text.hexDigits 4 code
  else [char]

def isWordChar (char : Char) : Bool :=
  char.isAlphanum || char == '_' || char == '-' || char == '.' || char == '/'

def isPlainWord (text : String) : Bool :=
  text.toList.head?.any Char.isAlpha && text.toList.all isWordChar &&
    Kind.ofPlain text.toList = .text

def writtenText (text : String) : String :=
  if isPlainWord text then text
  else String.ofList ('"' :: text.toList.flatMap quotedChar ++ ['"'])

def writtenReal (value : Binary64) : String :=
  match value with
  | .infinite negative => if negative then "-.inf" else ".inf"
  | .undefined => ".nan"
  | finite =>
    let digits := finite.text.toList
    let mantissa := digits.takeWhile (· != 'e')
    if mantissa.contains '.' then finite.text
    else String.ofList (mantissa ++ ['.', '0'] ++ digits.drop mantissa.length)

def padded : (width : Nat) → Nat → List Char
  | 0, _ => []
  | width + 1, value => padded width (value / 10) ++ [Text.hexDigit (value % 10)]

def writtenDate (date : Date) : List Char :=
  padded 4 date.year ++ '-' :: padded 2 date.month ++ '-' :: padded 2 date.day

def writtenOffset (seconds : Int) : List Char :=
  let minutes := seconds.natAbs / 60
  (if seconds < 0 then '-' else '+') :: padded 2 (minutes / 60) ++ ':' :: padded 2 (minutes % 60)

def writtenMoment (moment : Moment) : List Char :=
  writtenDate moment.date ++ ' ' :: padded 2 moment.hour ++ ':' :: padded 2 moment.minute ++
    ':' :: padded 2 moment.second ++ '.' :: padded 6 moment.micros ++
    (moment.offset.map writtenOffset).getD []

def writtenScalar : Scalar → String
  | .null => "null"
  | .bool value => if value then "true" else "false"
  | .int value => toString value
  | .real value => writtenReal value
  | .text value => writtenText value
  | .malformed value => writtenText value
  | .bytes value => "!!binary \"" ++ String.ofList (Text.base64 value) ++ "\""
  | .date value => String.ofList (writtenDate value)
  | .moment value => String.ofList (writtenMoment value)

def longestKey : Nat := 128

/-- A key and the value after it, given the head of the value. A long key stands on a line of its
own. -/
def entryLines (indent key head : String) : List String :=
  if key.length ≤ longestKey then [indent ++ key ++ ":" ++ head]
  else [indent ++ "? " ++ key, indent ++ ":" ++ head]

mutual

/-- The lines of a value under an indentation. A first line that goes on after a key or a hyphen is
given as a head of its own. -/
def valueLines (indent : String) : Value → String × List String
  | .scalar value => (" " ++ writtenScalar value, [])
  | .list [] => (" []", [])
  | .list (item :: items) => ("", itemLines indent (item :: items))
  | .set [] => (" !!set \x7b\x7d", [])
  | .set (item :: items) =>
    (" !!set", (item :: items).map fun item => indent ++ "? " ++ writtenScalar item)
  | .mapping [] => (" \x7b\x7d", [])
  | .mapping (member :: members) => ("", memberLines indent (member :: members))

def itemLines (indent : String) : List Value → List String
  | [] => []
  | item :: items =>
    let (head, lines) := valueLines (indent ++ "  ") item
    (indent ++ "-" ++ head) :: lines ++ itemLines indent items

def memberLines (indent : String) : List (Scalar × Value) → List String
  | [] => []
  | member :: members => memberLine indent member ++ memberLines indent members

def memberLine (indent : String) : Scalar × Value → List String
  | (key, value) =>
    let (head, lines) := valueLines (indent ++ "  ") value
    entryLines indent (writtenScalar key) head ++ lines

end

def write (value : Value) : String :=
  let (head, lines) := valueLines "" value
  let all := if head.isEmpty then lines else String.ofList head.toList.tail :: lines
  String.join (all.map (· ++ "\n"))

end DollarMath.Yaml
