import DollarMath.Yaml.Cursor

/-!
Days and moments as they are written in documents. This follows the published rules of YAML 1.1, as
all of the reader, which the program has from a library.
-/

namespace DollarMath.Yaml

structure Timestamp where
  date : Date
  time : Option (Nat × Nat × Nat) := none
  fraction : List Char := []
  offset : Option Int := none
deriving DecidableEq, Repr

namespace Timestamp

def number (digits : List Char) : Nat :=
  Numeral.natOfDigits 10 (digits.filterMap (Numeral.digit? 10))

def digits? (least most : Nat) (text : List Char) : Option (Nat × List Char) :=
  let digits := (text.takeWhile Char.isDigit).take most
  if least ≤ digits.length then some (number digits, text.drop digits.length) else none

def marked? (mark : Char) (least most : Nat) : List Char → Option (Nat × List Char)
  | [] => none
  | char :: rest => if char = mark then digits? least most rest else none

def dropBlanks (text : List Char) : List Char :=
  text.dropWhile fun char => char == ' ' || char == '\t'

def offset? : List Char → Option Int
  | ['Z'] => some 0
  | sign :: rest =>
    if sign = '+' || sign = '-' then
      (digits? 1 2 rest).bind fun (hours, left) =>
        let minutes? : Option Nat :=
          if left.isEmpty then some 0
          else (marked? ':' 2 2 left).bind fun (minutes, last) =>
            if last.isEmpty then some minutes else none
        minutes?.map fun minutes => Numeral.signed (sign = '-') (hours * 3600 + minutes * 60)
    else none
  | [] => none

def time? (date : Date) (text : List Char) : Option Timestamp := do
  let body ←
    if text.head?.any fun char => char == 'T' || char == 't' then some text.tail
    else if (dropBlanks text).length < text.length then some (dropBlanks text)
    else none
  let (hour, afterHour) ← digits? 1 2 body
  let (minute, afterMinute) ← marked? ':' 2 2 afterHour
  let (second, rest) ← marked? ':' 2 2 afterMinute
  let fraction := if rest.head? == some '.' then rest.tail.takeWhile Char.isDigit else []
  let left := if rest.head? == some '.' then rest.tail.drop fraction.length else rest
  let read : Timestamp := { date, time := some (hour, minute, second), fraction }
  if left.isEmpty then return read
  else return { read with offset := some (← offset? (dropBlanks left)) }

def read? (text : List Char) : Option Timestamp := do
  let (year, afterYear) ← digits? 4 4 text
  let (month, afterMonth) ← marked? '-' 1 2 afterYear
  let (day, rest) ← marked? '-' 1 2 afterMonth
  let date : Date := ⟨year, month, day⟩
  if rest.isEmpty then return { date } else time? date rest

/-- Whether a text without a tag is read as a day or moment. A day alone then has two digits for its
month and its day. -/
def isPlain (text : List Char) : Bool :=
  (read? text).any fun timestamp => timestamp.time.isSome || text.length = 10

def micros (fraction : List Char) : Nat :=
  number ((fraction.take 6) ++ List.replicate (6 - fraction.length) '0')

def toScalar (timestamp : Timestamp) : Except CalendarFault (Date ⊕ Moment) :=
  match timestamp.time with
  | none =>
    match timestamp.date.fault? with
    | some fault => .error fault
    | none => .ok (.inl timestamp.date)
  | some (hour, minute, second) =>
    let moment : Moment :=
      ⟨timestamp.date, hour, minute, second, micros timestamp.fraction, timestamp.offset⟩
    match moment.fault? with
    | some fault => .error fault
    | none => .ok (.inr moment)

end Timestamp

end DollarMath.Yaml
