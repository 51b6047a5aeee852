import DollarMath.Formula.Rule

/-!
Whether a bracketed span is mathematics, judged by what it holds and what stands around it.
-/

namespace DollarMath.Formula

/-- A letter as it is compared when case does not matter: the letters that other alphabets give to
`i`, `k` and `s` count as these. -/
def foldCase (char : Char) : Char :=
  if char.toNat = 0x130 || char.toNat = 0x131 then 'i'
  else if char.toNat = 0x17F then 's'
  else if char.toNat = 0x212A then 'k'
  else char.toLower

def afterWordFolded? (word text : List Char) : Option (List Char) :=
  if (text.take word.length).map foldCase == word then some (text.drop word.length) else none

def endsWord (rest : List Char) : Bool :=
  !rest.head?.any Text.isWord

def isLineRest (rest : List Char) : Bool :=
  rest == [] || rest == ['\n']

def startsMathContext (before : Option Char) : List Char → Bool
  | [] => false
  | char :: rest =>
    char == '\\' || isOperator char || isMathSign char ||
      (!before.any Text.isWord &&
        nounStems.any fun stem => (afterWordFolded? stem (char :: rest)).isSome)

def isMathContext (text : List Char) : Bool :=
  Text.anywhere startsMathContext none text

def startsOrdinal (text : List Char) : Bool :=
  let spaced := if text.head?.any Text.isBlank then text.tail else text
  let joined := if spaced.head? == some '-' then spaced.tail else spaced
  ordinalWords.any fun word =>
    (afterWordFolded? word joined).any fun rest =>
      endsWord rest || (rest.head?.map foldCase == some 's' && endsWord rest.tail)

def startsReference (text : List Char) : Bool :=
  referenceWords.any fun word => (afterWordFolded? word text).any endsWord

def endsMarker (rest : List Char) : Bool :=
  let after := if rest.head? == some '.' || rest.head? == some ')' then rest.tail else rest
  isLineRest after

def isSingleLetter : List Char → Bool
  | char :: rest => char.isAlpha && isLineRest rest
  | [] => false

def isDigitMarker (text : List Char) : Bool :=
  let rest := text.dropWhile Text.isDecimal
  rest.length < text.length && endsMarker rest

def isRomanMarker (text : List Char) : Bool :=
  romanNumerals.any fun numeral => (afterWordFolded? numeral text).any endsMarker

/-- A balanced span in brackets with the text around it: `inside` is what the brackets enclose,
`inner` the same without blanks at its ends. -/
structure Candidate where
  before : List Char
  inside : List Char
  inner : List Char
  after : List Char
deriving DecidableEq, Repr

namespace Candidate

def startsLine (candidate : Candidate) : Bool :=
  Text.allBlank (candidate.before.reverse.takeWhile (· != '\n'))

/-- Whether a span in parentheses is mathematics. Marks of list items, references and targets of
links are not; LaTeX is; a lone letter is if it is counted by or stands near mathematics. -/
def isMathInParens (candidate : Candidate) : Bool :=
  let inner := candidate.inner
  if isDigitMarker inner || isRomanMarker inner then false
  else if isSingleLetter inner && candidate.startsLine then false
  else if startsReference inner then false
  else if candidate.before.getLast? == some ']' then false
  else if readsAsLatex inner then true
  else
    isSingleLetter inner &&
      (startsOrdinal candidate.after ||
        isMathContext (candidate.before ++ ' ' :: candidate.after))

def isMathInSquares (candidate : Candidate) : Bool :=
  let inside := candidate.inside
  if candidate.after.head? == some '(' || candidate.after.head? == some '[' then false
  else if inside.head? == some '^' then false
  else if inside.head? == some '[' && inside.getLast? == some ']' then false
  else if candidate.before.getLast? == some '!' then false
  else readsAsLatex candidate.inner

end Candidate

end DollarMath.Formula
