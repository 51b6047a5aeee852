import DollarMath.Text.Utf8
import DollarMath.Yaml.Quoted

/-!
The names in a document: those that a part of it is given, those that say of what kind a part is,
and what is said about them before a document. This follows the published rules of YAML 1.1, as all
of the reader, which the program has from a library.
-/

namespace DollarMath.Yaml

def isNameChar (char : Char) : Bool :=
  char.isAlphanum || char == '-' || char == '_'

def readName (marks : List Char) (text : List Char) : Read (List Char × List Char) :=
  let name := text.takeWhile isNameChar
  let rest := text.drop name.length
  if !name.isEmpty && (endsWord rest || rest.head?.any marks.contains) then .ok (name, rest)
  else .error .token

def nameEnds : List Char :=
  "\t?:,]\x7d%@\x60".toList

def tagMarks : List Char :=
  "-;/?:@&=+$,_.!~*'()[]%".toList

def readEscapes : List Char → Read (Bytes × List Char)
  | '%' :: high :: low :: rest =>
    if Text.isHex high && Text.isHex low then
      (readEscapes rest).map fun parts => ((hexValue [high, low]).toUInt8 :: parts.1, parts.2)
    else .error .token
  | '%' :: _ => .error .token
  | text => .ok ([], text)

def tagChars : (fuel : Nat) → List Char → Read (List Char × List Char)
  | 0, text => .ok ([], text)
  | _, [] => .ok ([], [])
  | fuel + 1, char :: rest =>
    if char = '%' then do
      let (bytes, left) ← readEscapes (char :: rest)
      match Utf8.decode bytes with
      | .error _ => throw .token
      | .ok chars =>
        let (more, last) ← tagChars fuel left
        return (chars ++ more, last)
    else if char.isAlphanum || tagMarks.contains char then
      (tagChars fuel rest).map fun parts => (char :: parts.1, parts.2)
    else .ok ([], char :: rest)

def readTagChars (text : List Char) : Read (List Char × List Char) :=
  (tagChars text.length text).bind fun parts =>
    if parts.1.isEmpty then .error .token else .ok parts

/-- The name of a kind as it is written: in full, or as the end of a name whose start a handle
stands for. -/
structure Tag where
  handle : Option (List Char)
  name : List Char
deriving DecidableEq, Repr

def readHandle : List Char → Read (List Char × List Char)
  | '!' :: rest =>
    let name := rest.takeWhile isNameChar
    match rest.drop name.length with
    | '!' :: left => .ok ('!' :: name ++ ['!'], left)
    | ' ' :: left => if name.isEmpty then .ok (['!'], ' ' :: left) else .error .token
    | _ => .error .token
  | _ => .error .token

def Tag.read (text : List Char) : Read (Tag × List Char) := do
  let rest := text.tail
  let (tag, left) ←
    if rest.head? == some '<' then do
      let (name, last) ← readTagChars rest.tail
      if last.head? != some '>' then throw .token
      pure ((⟨none, name⟩ : Tag), last.tail)
    else if endsToken rest then pure (⟨none, ['!']⟩, rest)
    else do
      let word := rest.takeWhile fun char => !endsWord [char]
      let (handle, body) ← if word.contains '!' then readHandle text else pure (['!'], rest)
      let (name, last) ← readTagChars body
      pure (⟨some handle, name⟩, last)
  if !endsWord left then throw .token
  return (tag, left)

inductive Directive where
  | version (major : Int)
  | handle (handle start : List Char)
  | other
deriving DecidableEq, Repr

namespace Directive

def readNumber (text : List Char) : Read (Int × List Char) :=
  let digits := text.takeWhile Char.isDigit
  if digits.isEmpty then .error .token
  else
    match Numeral.int? 10 digits with
    | .ok value => .ok (value, text.drop digits.length)
    | .error fault => .error (.valueless (.numeral fault))

def dropSpaces (text : List Char) : List Char :=
  text.dropWhile (· == ' ')

def readVersion (text : List Char) : Read (Directive × List Char) := do
  let (major, rest) ← readNumber (dropSpaces text)
  if rest.head? != some '.' then throw .token
  let (_, left) ← readNumber rest.tail
  if !endsWord left then throw .token
  return (version major, left)

def readHandle (text : List Char) : Read (Directive × List Char) := do
  let (name, rest) ← Yaml.readHandle (dropSpaces text)
  if rest.head? != some ' ' then throw .token
  let (start, left) ← readTagChars (dropSpaces rest)
  if !endsWord left then throw .token
  return (handle name start, left)

def read (cursor : Cursor) : Read (Directive × Cursor) := do
  let (name, rest) ← readName [] cursor.rest.tail
  let (directive, left) ←
    if name = "YAML".toList then readVersion rest
    else if name = "TAG".toList then readHandle rest
    else pure (other, rest.dropWhile fun char => !isBreak char)
  return (directive, ← (cursor.moveTo left).nextLine)

end Directive

end DollarMath.Yaml
