import DollarMath.Calendar.Moment
import DollarMath.Number.Numeral

/-!
What keeps a text from being read as a YAML document. Errors are kept apart as the documentation of
the library does that the program reads with.
-/

namespace DollarMath.Yaml

inductive Fault where
  | numeral (fault : NumeralFault)
  | calendar (fault : CalendarFault)
  | notMoment
  | notBool (word : List Char)
  | notChar (code : Nat)
  | tooDeep
deriving DecidableEq, Repr

/-- What keeps a text from being read: a character that may not stand in a document, a token that
may not stand where it does, parts that do not fit together, a name that is missing or given twice,
a part that does not mean what its kind says, or something that has no value. -/
inductive ReadError where
  | character
  | token
  | mismatch
  | reference
  | meaning
  | valueless (fault : Fault)
deriving DecidableEq, Repr

abbrev Read (α : Type) := Except ReadError α

def greatestCode : Nat := 2147483647

def Fault.message : Fault → String
  | numeral fault => fault.message
  | calendar fault => fault.message
  | notMoment => "'NoneType' object has no attribute 'groupdict'"
  | notBool word => Text.quoted (String.ofList word)
  | notChar code =>
    if code ≤ greatestCode then "chr() arg not in range(0x110000)"
    else "Python int too large to convert to C int"
  | tooDeep => "maximum recursion depth exceeded"

def ReadError.message : ReadError → String
  | character => "a character that may not stand in a document"
  | token => "a token that may not stand where it does"
  | mismatch => "parts that do not fit together"
  | reference => "a name that is missing or given twice"
  | meaning => "a part that does not mean what its kind says"
  | valueless fault => fault.message

end DollarMath.Yaml
