import DollarMath.Calendar.Moment
import DollarMath.Number.Shortest
import DollarMath.Text.Quoted
import DollarMath.Text.Utf8

/-!
Values without parts: what settings hold, and what their keys are.
-/

namespace DollarMath

/-- A value without parts. A text that was written with half of a pair of code units is malformed,
and is kept with those of its halves that fit put together. -/
inductive Scalar where
  | null
  | bool (value : Bool)
  | int (value : Int)
  | real (value : Binary64)
  | text (value : String)
  | malformed (value : String)
  | bytes (value : Bytes)
  | date (value : Date)
  | moment (value : Moment)
deriving DecidableEq, Repr, Inhabited

instance : Coe String Scalar :=
  ⟨Scalar.text⟩

namespace Scalar

def text? : Scalar → Option String
  | text value => some value
  | malformed value => some value
  | _ => none

def isText (value : Scalar) : Bool :=
  value.text?.isSome

def whole? : Scalar → Option Int
  | bool value => some (if value then 1 else 0)
  | int value => some value
  | real value => value.toInt?
  | _ => none

/-- Whether two keys are the same: numbers of all kinds are, if they are equal. -/
def sameKey (first second : Scalar) : Bool :=
  first = second || (first.whole?.isSome && first.whole? = second.whole?)

def isEmpty : Scalar → Bool
  | null => true
  | bool value => !value
  | int value => value == 0
  | real value => value.isZero
  | text value => value.isEmpty
  | malformed _ => false
  | bytes value => value.isEmpty
  | date _ => false
  | moment _ => false

def kindName : Scalar → String
  | null => "NoneType"
  | bool _ => "bool"
  | int _ => "int"
  | real _ => "float"
  | text _ => "str"
  | malformed _ => "str"
  | bytes _ => "bytes"
  | date _ => "datetime.date"
  | moment _ => "datetime.datetime"

def quotedByte (quote : Char) (byte : UInt8) : List Char :=
  let char := Char.ofNat byte.toNat
  if byte.toNat < 128 then Text.quotedChar quote char
  else '\\' :: 'x' :: Text.hexDigits 2 byte.toNat

def quotedBytes (value : Bytes) : String :=
  let hasQuote (quote : Char) : Bool := value.any fun byte => byte.toNat = quote.toNat
  let quote := if hasQuote '\'' && !hasQuote '"' then '"' else '\''
  String.ofList ('b' :: quote :: value.flatMap (quotedByte quote) ++ [quote])

def shown : Scalar → String
  | null => "None"
  | bool value => if value then "True" else "False"
  | int value => toString value
  | real value => value.text
  | text value => Text.quoted value
  | malformed value => Text.quoted value
  | bytes value => quotedBytes value
  | date value => value.text
  | moment value => value.text

end Scalar

end DollarMath
