/-!
Patterns of names: a star stands for any characters, a question mark for one, and square brackets
for one character of a set.
-/

namespace DollarMath.Wildcard

structure CharRange where
  first : Char
  last : Char
deriving DecidableEq, Repr

namespace CharRange

def single (char : Char) : CharRange := ⟨char, char⟩

def isOrdered (range : CharRange) : Bool :=
  range.first ≤ range.last

def contains (range : CharRange) (char : Char) : Bool :=
  range.first ≤ char && char ≤ range.last

end CharRange

inductive Token where
  | char (char : Char)
  | any
  | many
  | oneOf (ranges : List CharRange)
  | noneOf (ranges : List CharRange)
deriving DecidableEq, Repr

/-- The ranges that a text between brackets lists. A hyphen makes a range unless it comes first or
last; the character after a range starts anew. -/
def ranges : List Char → List CharRange
  | first :: '-' :: last :: rest => ⟨first, last⟩ :: ranges rest
  | char :: rest => .single char :: ranges rest
  | [] => []

/-- The set that ranges make, those without characters left out. An exclamation mark that then
comes first, be it the start of a range, excludes what follows. -/
def ofRanges (found : List CharRange) : Token :=
  match found.filter CharRange.isOrdered with
  | ⟨'!', '!'⟩ :: rest => .noneOf rest
  | ⟨'!', last⟩ :: rest => .noneOf (.single '-' :: .single last :: rest)
  | kept => .oneOf kept

def setToken : List Char → Token
  | '!' :: body => .noneOf ((ranges body).filter CharRange.isOrdered)
  | body => ofRanges (ranges body)

/-- The text up to the bracket that closes a set, and what follows it. A bracket that comes first,
also after an exclamation mark, belongs to the set. -/
def setBody? (text : List Char) : Option (List Char × List Char) :=
  let mark := text.takeWhile (· == '!') |>.take 1
  let lead := mark ++ ((text.drop mark.length).takeWhile (· == ']')).take 1
  let left := text.drop lead.length
  let body := left.takeWhile (· != ']')
  match left.drop body.length with
  | _ :: after => some (lead ++ body, after)
  | [] => none

theorem length_of_setBody? {text body after : List Char}
    (found : setBody? text = some (body, after)) : after.length ≤ text.length := by
  simp only [setBody?] at found
  split at found
  next dropped =>
    simp only [Option.some.injEq, Prod.mk.injEq] at found
    obtain ⟨_, rfl⟩ := found
    have sizes := congrArg List.length dropped
    simp only [List.length_drop, List.length_cons] at sizes
    omega
  next => simp at found

def tokens : List Char → List Token
  | [] => []
  | '*' :: rest => .many :: tokens rest
  | '?' :: rest => .any :: tokens rest
  | '[' :: rest =>
    match _found : setBody? rest with
    | some (body, after) => setToken body :: tokens after
    | none => .char '[' :: tokens rest
  | char :: rest => .char char :: tokens rest
termination_by text => text.length
decreasing_by
  all_goals simp only [List.length_cons]
  all_goals try have := length_of_setBody? ‹setBody? _ = some _›
  all_goals omega

def Token.fits : Token → Char → Bool
  | char expected, found => expected == found
  | any, _ => true
  | many, _ => true
  | oneOf ranges, found => ranges.any (·.contains found)
  | noneOf ranges, found => !ranges.any (·.contains found)

def anySuffix (test : List Char → Bool) : List Char → Bool
  | [] => test []
  | char :: rest => test (char :: rest) || anySuffix test rest

def fits : List Token → List Char → Bool
  | [], name => name.isEmpty
  | .many :: rest, name => anySuffix (fits rest) name
  | _ :: _, [] => false
  | token :: rest, char :: name => token.fits char && fits rest name

end DollarMath.Wildcard
