import DollarMath.Number.Binary64
import DollarMath.Text.Blank
import DollarMath.Text.Quoted
import DollarMath.Text.Word

/-!
Numbers as they are written: whole numbers in a base up to sixteen, and numbers with a fraction and
an exponent. Decimal digits of any script count, and blanks around a number do not.
-/

namespace DollarMath

inductive NumeralFault where
  | missing
  | notWhole (base : Nat) (text : List Char)
  | tooLong (digits : Nat)
  | notReal (text : List Char)
deriving DecidableEq, Repr

namespace Numeral

def maxDigits : Nat := 4300

def digit? (base : Nat) (char : Char) : Option Nat :=
  let value? :=
    if 'a' ≤ char && char ≤ 'f' then some (char.toNat - 'a'.toNat + 10)
    else if 'A' ≤ char && char ≤ 'F' then some (char.toNat - 'A'.toNat + 10)
    else Text.decimalValue? char
  value?.filter (· < base)

def natOfDigits (base : Nat) (digits : List Nat) : Nat :=
  digits.foldl (fun value digit => value * base + digit) 0

def splitSign : List Char → Bool × List Char
  | '-' :: rest => (true, rest)
  | '+' :: rest => (false, rest)
  | text => (false, text)

def signed (negative : Bool) (value : Nat) : Int :=
  if negative then -(value : Int) else value

def dropBaseMark (base : Nat) : List Char → List Char
  | '0' :: mark :: rest =>
    let names (low high : Char) : Bool := mark == low || mark == high
    if (base = 2 && names 'b' 'B') || (base = 8 && names 'o' 'O') || (base = 16 && names 'x' 'X')
    then rest else '0' :: mark :: rest
  | text => text

/-- Whether the size of a number in the base follows at once from the number of its digits, so that
it may have any number of them. -/
def isPowerOfTwo (base : Nat) : Bool :=
  base = 2 || base = 8 || base = 16

def int? (base : Nat) (text : List Char) : Except NumeralFault Int :=
  let (negative, unsigned) := splitSign (Text.strip text)
  let body := dropBaseMark base unsigned
  let digits := body.map (digit? base)
  let count := (digits.takeWhile Option.isSome).length
  if !isPowerOfTwo base && maxDigits < count then .error (.tooLong count)
  else if body.isEmpty || count < body.length then .error (.notWhole base text)
  else .ok (signed negative (natOfDigits base (digits.filterMap id)))

def exponent? : List Char → Option Int
  | [] => some 0
  | mark :: rest =>
    let (negative, body) := splitSign rest
    let digits := body.map (digit? 10)
    if (mark == 'e' || mark == 'E') && !body.isEmpty && digits.all Option.isSome then
      some (signed negative (natOfDigits 10 (digits.filterMap id)))
    else none

def decimal? (negative : Bool) (text : List Char) : Option Binary64 :=
  let isDigit (char : Char) : Bool := (digit? 10 char).isSome
  let whole := text.takeWhile isDigit
  let rest := text.drop whole.length
  let fraction := if rest.head? == some '.' then rest.tail.takeWhile isDigit else []
  let left := if rest.head? == some '.' then rest.tail.drop fraction.length else rest
  let digits := (whole ++ fraction).filterMap (digit? 10)
  if digits.isEmpty then none
  else (exponent? left).map fun exponent =>
    Binary64.ofDecimal negative (natOfDigits 10 digits) (exponent - fraction.length)

def real? (text : List Char) : Except NumeralFault Binary64 :=
  let (negative, body) := splitSign (Text.strip text)
  let word := String.ofList (body.map Char.toLower)
  if word = "inf" || word = "infinity" then .ok (.infinite negative)
  else if word = "nan" then .ok .undefined
  else
    match decimal? negative body with
    | some value => .ok value
    | none => .error (.notReal text)

end Numeral

def NumeralFault.shownLength : Nat := 200

def NumeralFault.message : NumeralFault → String
  | .missing => "string index out of range"
  | .notWhole base text =>
    let shown := (Text.quoted (String.ofList text)).toList.take shownLength
    s!"invalid literal for int() with base {base}: {String.ofList shown}"
  | .tooLong digits =>
    s!"Exceeds the limit ({Numeral.maxDigits} digits) for integer string conversion: " ++
      s!"value has {digits} digits; use sys.set_int_max_str_digits() to increase the limit"
  | .notReal text => "could not convert string to float: " ++ Text.quoted (String.ofList text)

end DollarMath
