import DollarMath.Text.CodePoint
import DollarMath.Text.Lines
import DollarMath.Yaml.Timestamp

/-!
The kinds of parts of a document, by the names that they are given, and of unquoted scalars by the
way in which they are written. They are those of the library that the program reads with, by its
documentation.
-/

namespace DollarMath.Yaml

inductive Kind where
  | null
  | bool
  | int
  | real
  | text
  | bytes
  | timestamp
  | list
  | mapping
  | set
  | orderedMapping
  | pairs
  | merge
  | value
  | unknown
deriving DecidableEq, Repr

namespace Kind

def commonStart : String := "tag:yaml.org,2002:"

def commonNames : List (String × Kind) :=
  [("null", null), ("bool", bool), ("int", int), ("float", real), ("str", text),
    ("binary", bytes), ("timestamp", timestamp), ("seq", list), ("map", mapping), ("set", set),
    ("omap", orderedMapping), ("pairs", pairs), ("merge", merge), ("value", value)]

def ofName (name : String) : Kind :=
  ((commonNames.find? fun entry => commonStart ++ entry.1 == name).map Prod.snd).getD unknown

def nullWords : List String := ["", "~", "null", "Null", "NULL"]

def boolWords : List String :=
  ["yes", "Yes", "YES", "no", "No", "NO", "true", "True", "TRUE", "false", "False", "FALSE",
    "on", "On", "ON", "off", "Off", "OFF"]

def allDigits (isDigit : Char → Bool) (text : List Char) : Bool :=
  text.all fun char => isDigit char || char == '_'

def isSixtieth : List Char → Bool
  | [unit] => unit.isDigit
  | [ten, unit] => '0' ≤ ten && ten ≤ '5' && unit.isDigit
  | _ => false

def isSexagesimal (text : List Char) : Bool :=
  match Text.splitAt ':' text with
  | first :: second :: rest =>
    first.head?.any Char.isDigit && allDigits Char.isDigit first && (second :: rest).all isSixtieth
  | _ => false

def isOctal (char : Char) : Bool :=
  '0' ≤ char && char ≤ '7'

def isBinary (char : Char) : Bool :=
  char == '0' || char == '1'

def isNat : List Char → Bool
  | ['0'] => true
  | '0' :: 'b' :: rest => !rest.isEmpty && allDigits isBinary rest
  | '0' :: 'x' :: rest => !rest.isEmpty && allDigits Text.isHex rest
  | '0' :: rest => allDigits isOctal rest
  | first :: rest => first.isDigit && (allDigits Char.isDigit rest || isSexagesimal (first :: rest))
  | [] => false

def isInt (text : List Char) : Bool :=
  isNat (Numeral.splitSign text).2

def endsReal : List Char → Bool
  | [] => true
  | mark :: sign :: rest =>
    (mark == 'e' || mark == 'E') && (sign == '-' || sign == '+') && !rest.isEmpty &&
      rest.all Char.isDigit
  | _ => false

def infiniteWords : List String := [".inf", ".Inf", ".INF"]

def undefinedWords : List String := [".nan", ".NaN", ".NAN"]

/-- A number with a point. In front of the point there are digits, or else no sign and a digit after
it. -/
def isDecimal (isSigned : Bool) (text : List Char) : Bool :=
  let isPart (char : Char) : Bool := char.isDigit || char == '_'
  let whole := text.takeWhile isPart
  match text.drop whole.length with
  | '.' :: rest =>
    let fraction := rest.takeWhile isPart
    (whole.head?.any Char.isDigit ||
      (whole.isEmpty && !isSigned && fraction.head?.any Char.isDigit)) &&
      endsReal (rest.drop fraction.length)
  | _ => false

def isSexagesimalReal (text : List Char) : Bool :=
  let whole := text.takeWhile (· != '.')
  match text.drop whole.length with
  | '.' :: rest => isSexagesimal whole && allDigits Char.isDigit rest
  | _ => false

def isReal (text : List Char) : Bool :=
  let body := (Numeral.splitSign text).2
  isDecimal (body.length != text.length) body || isSexagesimalReal body ||
    infiniteWords.contains (String.ofList body) || undefinedWords.contains (String.ofList text)

def reservedWords : List String := ["!", "&", "*"]

def dropFeed (text : List Char) : List Char :=
  if text.length ≠ 1 && text.getLast? == some '\n' then text.dropLast else text

def ofPlain (source : List Char) : Kind :=
  let text := dropFeed source
  let word := String.ofList text
  if boolWords.contains word then bool
  else if isReal text then real
  else if isInt text then int
  else if word == "<<" then merge
  else if nullWords.contains word then null
  else if Timestamp.isPlain text then timestamp
  else if word == "=" then value
  else if reservedWords.contains word then unknown
  else Kind.text

end Kind

end DollarMath.Yaml
