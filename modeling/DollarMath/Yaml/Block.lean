import DollarMath.Yaml.Cursor

/-!
Scalars that stand on indented lines of their own: literal ones keep their line breaks, and folded
ones join their lines. As all of the reader this follows the published rules of YAML 1.1 and is no
part of the program, which reads with a library.
-/

namespace DollarMath.Yaml

inductive Chomping where
  | strip
  | clip
  | keep
deriving DecidableEq, Repr

structure BlockHeader where
  chomping : Chomping
  increment : Option Nat
deriving DecidableEq, Repr

namespace BlockHeader

def chomping? : Char → Option Chomping
  | '+' => some .keep
  | '-' => some .strip
  | _ => none

def readIncrement : List Char → Read (Option Nat × List Char)
  | [] => .ok (none, [])
  | char :: rest =>
    if char = '0' then .error .token
    else if char.isDigit then .ok (some (char.toNat - '0'.toNat), rest)
    else .ok (none, char :: rest)

def readChomping (text : List Char) : Option Chomping × List Char :=
  match text.head?.bind chomping? with
  | some chomping => (some chomping, text.tail)
  | none => (none, text)

def read (text : List Char) : Read (BlockHeader × List Char) := do
  let (first, afterFirst) := readChomping text
  let (increment, afterIncrement) ← readIncrement afterFirst
  let (second, rest) :=
    if first.isNone && increment.isSome then readChomping afterIncrement else (none, afterIncrement)
  if !endsWord rest then throw .token
  return (⟨(first.or second).getD .clip, increment⟩, rest)

end BlockHeader

/-- The line breaks up to the first line that is not blank, and the column of the rightmost space
among them. -/
def blockIndent : (fuel : Nat) → (rightmost : Nat) → Cursor → List Char × Nat × Cursor
  | 0, rightmost, cursor => ([], rightmost, cursor)
  | fuel + 1, rightmost, cursor =>
    match cursor.rest with
    | [] => ([], rightmost, cursor)
    | char :: _ =>
      if isBreak char then
        let (breaks, found, last) := blockIndent fuel rightmost cursor.next
        (breakOf char :: breaks, found, last)
      else if char == ' ' then blockIndent fuel (max rightmost cursor.next.column) cursor.next
      else ([], rightmost, cursor)

def skipIndent (column : Nat) (cursor : Cursor) : Cursor :=
  let spaces := (cursor.rest.takeWhile (· == ' ')).length
  cursor.advance (min spaces (column - cursor.column))

def blankLines (column : Nat) : (fuel : Nat) → Cursor → List Char × Cursor
  | 0, cursor => ([], cursor)
  | fuel + 1, cursor =>
    let there := skipIndent column cursor
    match there.rest with
    | [] => ([], there)
    | char :: _ =>
      if isBreak char then
        let (breaks, last) := blankLines column fuel there.next
        (breakOf char :: breaks, last)
      else ([], there)

def startsBlank (text : List Char) : Bool :=
  text.head?.any fun char => char == ' ' || char == '\t'

structure BlockBody where
  text : List Char
  lastBreak : List Char
  breaks : List Char
  after : Cursor

/-- What a line break between two lines of a folded scalar stands for. Lines that start with a blank
are not folded. -/
def foldedBreak (line lineBreak next breaks : List Char) : List Char :=
  if lineBreak = ['\n'] && !startsBlank line && !startsBlank next then
    if breaks.isEmpty then [' '] else []
  else lineBreak

def blockBody (folds : Bool) (column : Nat) :
    (fuel : Nat) → (breaks : List Char) → Cursor → BlockBody
  | 0, breaks, cursor => ⟨[], [], breaks, cursor⟩
  | fuel + 1, breaks, cursor =>
    if cursor.column != column || cursor.rest.isEmpty then ⟨[], [], breaks, cursor⟩
    else
      let last := cursor.skipLine
      let line := cursor.rest.take (cursor.rest.length - last.rest.length)
      let lineBreak := (last.rest.head?.map breakOf).toList
      let (blank, next) := blankLines column last.rest.length last.next
      if next.column = column && !next.rest.isEmpty then
        let between :=
          if folds then foldedBreak cursor.rest lineBreak next.rest blank else lineBreak
        let body := blockBody folds column fuel blank next
        { body with text := breaks ++ line ++ between ++ body.text }
      else ⟨breaks ++ line, lineBreak, blank, next⟩

def blockScalar (folds : Bool) (parent : Int) (cursor : Cursor) :
    Read (List Char × Cursor) := do
  let start := cursor.next
  let (header, rest) ← BlockHeader.read start.rest
  let first ← (start.moveTo rest).nextLine
  let least := (max 1 (parent + 1)).toNat
  let fuel := first.rest.length + 1
  let (breaks, column, there) :=
    match header.increment with
    | some increment =>
      let (breaks, there) := blankLines (least + increment - 1) fuel first
      (breaks, least + increment - 1, there)
    | none =>
      let (breaks, rightmost, there) := blockIndent fuel 0 first
      (breaks, max least rightmost, there)
  let body := blockBody folds column fuel breaks there
  let tail :=
    match header.chomping with
    | .strip => []
    | .clip => body.lastBreak
    | .keep => body.lastBreak ++ body.breaks
  return (body.text ++ tail, body.after)

end DollarMath.Yaml
