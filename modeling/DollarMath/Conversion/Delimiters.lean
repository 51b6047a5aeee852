import DollarMath.Region.Revision
import DollarMath.Text.Blank
import DollarMath.Text.Word

/-!
Escaped delimiters and brackets on lines of their own become dollars, and dollars padded with
spaces are moved up to their body. Display math is put between the text before and after it as a
block of lines.
-/

namespace DollarMath

/-- Two delimiter lines with the body between them. A line break is put before or after the block
only where it would share a line with the text there. -/
def displayBlock (newline indent body : List Char) (previous next : Option Char) : List Region :=
  let delimiter := indent ++ ['$', '$']
  let block := Region.display (delimiter ++ newline ++ indent ++ body ++ newline ++ delimiter)
  let above := if previous.any (· != '\n') then [Region.outside newline] else []
  let below := if next.any fun char => !Text.isReturn char then [Region.outside newline] else []
  above ++ block :: below

namespace Delimiters

def escapedSquares : Text.Recognizer (List Char)
  | before, '\\' :: '[' :: rest =>
    if before == some '[' || before == some '\\' then none
    else
      (Text.splitAtFirst? ['\\', ']'] rest).map fun parts => (parts.1.length + 4, parts.1)
  | _, _ => none

def escapedParens : Text.Recognizer (List Char)
  | before, '\\' :: '(' :: rest =>
    if before == some '\\' then none
    else
      match Text.splitAtFirst? ['\\', ')'] rest with
      | some (body, _) => if body.contains '\n' then none else some (body.length + 4, body)
      | none => none
  | _, _ => none

def afterLineBreak? : List Char → Option (List Char)
  | '\r' :: '\n' :: rest => some rest
  | '\n' :: rest => some rest
  | _ => none

def afterClosingLine? (text : List Char) : Option (List Char) :=
  match (afterLineBreak? text).map (·.dropWhile Text.isIndent) with
  | some (']' :: rest) =>
    let after := rest.dropWhile Text.isIndent
    if after.isEmpty || after.head? == some '\n' then some after else none
  | _ => none

def bracketLines : Text.Recognizer (List Char) :=
  fun before text =>
    if before.any (· != '\n') then none
    else
      match text.dropWhile Text.isIndent with
      | '[' :: rest =>
        match afterLineBreak? (rest.dropWhile Text.isIndent) with
        | some body =>
          (Text.splitWhere? afterClosingLine? body).map fun parts =>
            (text.length - parts.2.length, parts.1)
        | none => none
      | _ => none

/-- Two dollars on a line with spaces inside both of them and something between the spaces. The
second must not be followed by a dollar or a digit. -/
def paddedDollars : Text.Recognizer (List Char)
  | before, '$' :: rest =>
    if before == some '\\' || before == some '$' then none
    else
      let inside := rest.takeWhile fun char => char != '$' && char != '\n'
      match rest.drop inside.length with
      | '$' :: after =>
        if inside.head? == some ' ' && inside.getLast? == some ' ' && 3 ≤ inside.length &&
            !after.head?.any fun char => char == '$' || Text.isDecimal char then
          some (inside.length + 2, inside)
        else none
      | _ => none
  | _, _ => none

def toDisplay (newline : List Char) : Build (List Char) :=
  fun previous _ inside next =>
    let body := Text.strip inside
    if body.isEmpty then none else some (displayBlock newline [] body previous next)

def toDisplayAtLine (newline : List Char) : Build (List Char) :=
  fun previous taken inside next =>
    if previous.any (· != '\n') then none else toDisplay newline previous taken inside next

def toInline : Build (List Char) :=
  fun _ _ inside _ =>
    let body := Text.strip inside
    if body.isEmpty then none else some [Region.dollars body]

def normalize (regions : List Region) : List Region :=
  let newline := lineEnding (Piece.join regions)
  let squares := reviseOutside (substitution escapedSquares (toDisplay newline)) regions
  let lines := reviseOutside (substitution bracketLines (toDisplayAtLine newline)) squares
  let parens := reviseOutside (substitution escapedParens toInline) lines
  reviseOutside (substitution paddedDollars toInline) parens

end Delimiters

end DollarMath
