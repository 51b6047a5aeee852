import DollarMath.Yaml.ReadError

/-!
A place in a YAML document: how far it is from the start, its line and column, and the text from
there on. The reader that starts here is no part of the program, which reads with a library: it
follows the published rules of YAML 1.1.
-/

namespace DollarMath.Yaml

def byteOrderMark : Char := Char.ofNat 0xFEFF

def isBreak (char : Char) : Bool :=
  char == '\n' || char.toNat == 0x85 || char.toNat == 0x2028 || char.toNat == 0x2029

/-- The line break that a character stands for: that of a new paragraph or page line is kept. -/
def breakOf (char : Char) : Char :=
  if char.toNat == 0x85 then '\n' else char

def endsLine (text : List Char) : Bool :=
  text.head?.all isBreak

def endsWord (text : List Char) : Bool :=
  text.head?.all fun char => char == ' ' || isBreak char

def endsToken (text : List Char) : Bool :=
  text.head?.all fun char => char == ' ' || char == '\t' || isBreak char

def isSeparator : List Char → Bool
  | '-' :: '-' :: '-' :: rest => endsToken rest
  | '.' :: '.' :: '.' :: rest => endsToken rest
  | _ => false

structure Cursor where
  index : Nat
  line : Nat
  column : Nat
  rest : List Char
deriving Repr

namespace Cursor

def ofText (text : List Char) : Cursor :=
  ⟨0, 0, 0, text⟩

def next (cursor : Cursor) : Cursor :=
  match cursor.rest with
  | [] => cursor
  | char :: rest =>
    if isBreak char then ⟨cursor.index + 1, cursor.line + 1, 0, rest⟩
    else if char == byteOrderMark then ⟨cursor.index + 1, cursor.line, cursor.column, rest⟩
    else ⟨cursor.index + 1, cursor.line, cursor.column + 1, rest⟩

def advance (cursor : Cursor) : Nat → Cursor
  | 0 => cursor
  | count + 1 => advance cursor.next count

def moveTo (cursor : Cursor) (rest : List Char) : Cursor :=
  cursor.advance (cursor.rest.length - rest.length)

def skipSpaces (cursor : Cursor) : Cursor :=
  cursor.moveTo (cursor.rest.dropWhile (· == ' '))

def skipLine (cursor : Cursor) : Cursor :=
  cursor.moveTo (cursor.rest.dropWhile fun char => !isBreak char)

def skipComment (cursor : Cursor) : Cursor :=
  let there := cursor.skipSpaces
  if there.rest.head? == some '#' then there.skipLine else there

def nextLine (cursor : Cursor) : Read Cursor :=
  let there := cursor.skipComment
  if endsLine there.rest then .ok there.next else .error .token

def skip : (fuel : Nat) → Cursor → Cursor
  | 0, cursor => cursor
  | fuel + 1, cursor =>
    let there := cursor.skipComment
    if there.rest.head?.any isBreak then skip fuel there.next else there

end Cursor

end DollarMath.Yaml
