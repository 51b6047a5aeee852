import DollarMath.Region.Line
import DollarMath.Text.Group
import DollarMath.Text.Word

/-!
Bare tokens of LaTeX become inline math: degrees, roots and fractions, and letters with an index
or exponent.
-/

namespace DollarMath.BareTokens

def number? (text : List Char) : Option (List Char × List Char) :=
  let whole := text.takeWhile Text.isDecimal
  let rest := text.dropWhile Text.isDecimal
  if whole.isEmpty then none
  else
    match rest with
    | '.' :: tail =>
      let digits := tail.takeWhile Text.isDecimal
      if digits.isEmpty then some (whole, rest)
      else some (whole ++ '.' :: digits, tail.dropWhile Text.isDecimal)
    | _ => some (whole, rest)

def afterDegreeSign? (text : List Char) : Option (List Char) :=
  let ends (rest : List Char) :=
    if rest.head?.any fun char => char.isAlpha || char == '$' then none else some rest
  ((Text.afterWord? ['^', '\\', 'c', 'i', 'r', 'c'] text).or
    (Text.afterWord? ['^', '{', '\\', 'c', 'i', 'r', 'c', '}'] text)).bind ends

def degree : Text.Recognizer (List Char) :=
  fun before text =>
    if before.any fun char => Text.isWord char || char == '$' || char == '.' then none
    else
      (number? text).bind fun found =>
        (afterDegreeSign? found.2).map fun rest => (text.length - rest.length, found.1)

def afterBraces? : Nat → List Char → Option (List Char)
  | 0, text => some text
  | count + 1, text => (Text.afterGroup? '{' '}' text).bind (afterBraces? count)

def afterRoot? (text : List Char) : Option (List Char) :=
  if text.head? == some '[' then (Text.afterGroup? '[' ']' text).bind (afterBraces? 1)
  else afterBraces? 1 text

def afterMacro? : List Char → Option (List Char)
  | '\\' :: rest =>
    match Text.afterWord? ['s', 'q', 'r', 't'] rest with
    | some arguments => if arguments.head?.any Char.isAlpha then none else afterRoot? arguments
    | none =>
      match Text.afterWord? ['f', 'r', 'a', 'c'] rest with
      | some arguments =>
        if arguments.head?.any Char.isAlpha then none else afterBraces? 2 arguments
      | none => none
  | _ => none

/-- A root or a fraction, given the characters around the searched text. One that touches a dollar
is passed over, so that one inside it may be found. -/
def rootOrFraction (outer after : Option Char) : Text.Recognizer Unit :=
  fun before text =>
    if before == some '\\' || before == some '$' then none
    else
      (afterMacro? text).bind fun rest =>
        if before.or outer == some '$' || rest.head?.or after == some '$' then none
        else some (text.length - rest.length, ())

def afterScript? : List Char → Option (List Char)
  | '{' :: rest =>
    match rest.dropWhile fun char => char != '{' && char != '}' && char != '\n' with
    | '}' :: after => some after
    | _ => none
  | text =>
    let rest := text.dropWhile Char.isAlphanum
    if rest.length < text.length then some rest else none

/-- Where a letter with an index may end: before a blank or a mark, or at the end of the text. -/
def endsScript (rest : List Char) : Bool :=
  match rest with
  | [] => true
  | char :: _ => Text.isBlank char || ".,;:!?)]".toList.contains char

def script : Text.Recognizer Unit
  | before, text@(letter :: mark :: rest) =>
    if before.any fun char => Text.isWord char || char == '\\' || char == '$' then none
    else if letter.isAlpha && (mark == '_' || mark == '^') then
      (afterScript? rest).bind fun after =>
        if endsScript after then some (text.length - after.length, ()) else none
    else none
  | _, _ => none

def touchesDollar (previous next : Option Char) : Bool :=
  previous == some '$' || next == some '$'

def toDegree : Build (List Char) :=
  fun previous _ number next =>
    if touchesDollar previous next then none
    else some [Region.dollars (number ++ ['^', '{', '\\', 'c', 'i', 'r', 'c', '}'])]

def toInline : Build Unit :=
  fun previous taken _ next =>
    if touchesDollar previous next then none else some [Region.dollars taken]

def wrapMacros : Revision :=
  fun before text after =>
    substitution (rootOrFraction before after) (fun _ taken _ _ => some [Region.dollars taken])
      before text after

def holdsDelimiterLine (region : Region) : Bool :=
  (Text.lines region.text).any fun line => Text.strip line == ['$', '$']

def pass (revise : Revision) (regions : List Region) : List Region :=
  reviseOutside revise regions holdsDelimiterLine (strayDollars regions)

def wrap (regions : List Region) : List Region :=
  pass (substitution script toInline)
    (pass wrapMacros (pass (substitution degree toDegree) regions))

end DollarMath.BareTokens
