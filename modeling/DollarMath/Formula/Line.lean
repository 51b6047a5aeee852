import DollarMath.Formula.Rule

/-!
Whether a bare line is a formula rather than prose.
-/

namespace DollarMath.Formula

def isHeading (line : List Char) : Bool :=
  let rest := line.dropWhile (· == '#')
  let level := line.length - rest.length
  1 ≤ level && level ≤ 6 && rest.head?.any Text.isBlank

def isListItem : List Char → Bool
  | mark :: rest => (mark == '-' || mark == '*' || mark == '•') && rest.head?.any Text.isBlank
  | [] => false

def isRuler (line : List Char) : Bool :=
  match line.filter fun char => !Text.isBlank char with
  | mark :: rest =>
    (mark == '*' || mark == '-' || mark == '_') && 2 ≤ rest.length && rest.all (· == mark)
  | [] => false

def startsMathToken (text : List Char) : Bool :=
  text.head?.any isOperator || startsCommand text

def proseWord : Text.Recognizer Unit :=
  fun before text =>
    let run := letterRun text
    if before == some '\\' || followsLetter before || run.length < 2 then none
    else some (run.length, ())

def countProseWords (line : List Char) : Nat :=
  ((Text.findAll proseWord line).map (·.map Char.toLower)).eraseDups.length

/-- Whether a line is a formula: it has no dollar, is no heading, list item or ruler, holds a token
of mathematics, and has few words. -/
def isFormulaLine (line : List Char) : Bool :=
  let body := Text.strip line
  !body.isEmpty && !line.contains '$' && !isHeading body && !isListItem body && !isRuler body &&
    (Text.anywhere (fun _ => startsMathToken) none body ||
      Text.anywhere startsArithmetic none body) &&
    countProseWords body ≤ maxProseWords

end DollarMath.Formula
