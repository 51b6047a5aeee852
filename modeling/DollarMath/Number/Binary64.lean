/-!
Numbers of double precision, and the one that is nearest to a fraction.
-/

namespace DollarMath

/-- A number of double precision. A finite one is its significand, which has at most 53 bits, times
a power of two that is not below the 1074th negative one. -/
inductive Binary64 where
  | finite (negative : Bool) (significand : Nat) (exponent : Int)
  | infinite (negative : Bool)
  | undefined
deriving DecidableEq, Repr, Inhabited

namespace Binary64

def leastExponent : Int := -1074

def greatestExponent : Int := 971

def significandLimit : Nat := 9007199254740992

def zero : Binary64 := finite false 0 leastExponent

/-- A quotient rounded to the nearest whole number, a half to the even neighbour. -/
def roundDiv (numerator denominator : Nat) : Nat :=
  let floor := numerator / denominator
  let left := numerator % denominator
  if 2 * left < denominator then floor
  else if denominator < 2 * left then floor + 1
  else floor + floor % 2

def descale (numerator denominator : Nat) (exponent : Int) : Nat × Nat :=
  if 0 ≤ exponent then (numerator, denominator * Nat.pow 2 exponent.toNat)
  else (numerator * Nat.pow 2 (-exponent).toNat, denominator)

def floorLog (numerator denominator : Nat) : Int :=
  let guess : Int := (numerator.log2 : Int) - denominator.log2
  let (scaled, unit) := descale numerator denominator guess
  if scaled < unit then guess - 1 else guess

def ofFraction (negative : Bool) (numerator denominator : Nat) : Binary64 :=
  if numerator = 0 || denominator = 0 then finite negative 0 leastExponent
  else
    let exponent := max leastExponent (floorLog numerator denominator - 52)
    let (scaled, unit) := descale numerator denominator exponent
    let rounded := roundDiv scaled unit
    let (significand, last) :=
      if rounded = significandLimit then (rounded / 2, exponent + 1) else (rounded, exponent)
    if greatestExponent < last then infinite negative else finite negative significand last

/-- The number nearest to digits times a power of ten. Powers of ten so great or so small that the
number is infinite or zero are not multiplied out. -/
def ofDecimal (negative : Bool) (digits : Nat) (exponent : Int) : Binary64 :=
  let size : Int := (Nat.toDigits 10 digits).length + exponent
  if digits = 0 || size < -400 then finite negative 0 leastExponent
  else if 400 < size then infinite negative
  else if 0 ≤ exponent then ofFraction negative (digits * Nat.pow 10 exponent.toNat) 1
  else ofFraction negative digits (Nat.pow 10 (-exponent).toNat)

def ofNat (value : Nat) : Binary64 :=
  ofFraction false value 1

def magnitude (significand : Nat) (exponent : Int) : Nat × Nat :=
  if 0 ≤ exponent then (significand * Nat.pow 2 exponent.toNat, 1)
  else (significand, Nat.pow 2 (-exponent).toNat)

def isZero : Binary64 → Bool
  | finite _ significand _ => significand == 0
  | _ => false

def negate : Binary64 → Binary64
  | finite negative significand exponent => finite (!negative) significand exponent
  | infinite negative => infinite (!negative)
  | undefined => undefined

def isNegative : Binary64 → Bool
  | finite negative _ _ => negative
  | infinite negative => negative
  | undefined => false

/-- The sum of two numbers, rounded. A sum of zero is negative only if both numbers are. -/
def add : Binary64 → Binary64 → Binary64
  | undefined, _ => undefined
  | _, undefined => undefined
  | finite low significand exponent, finite below other shift =>
    let signed (negative : Bool) (numerator : Nat) : Int :=
      if negative then -(numerator : Int) else numerator
    let (left, leftUnit) := magnitude significand exponent
    let (right, rightUnit) := magnitude other shift
    let total := signed low (left * rightUnit) + signed below (right * leftUnit)
    if total = 0 then finite (low && below) 0 leastExponent
    else ofFraction (total < 0) total.natAbs (leftUnit * rightUnit)
  | infinite low, infinite below => if low = below then infinite low else undefined
  | infinite low, _ => infinite low
  | _, infinite below => infinite below

def mul : Binary64 → Binary64 → Binary64
  | undefined, _ => undefined
  | _, undefined => undefined
  | finite low significand exponent, finite below other shift =>
    let (left, leftUnit) := magnitude significand exponent
    let (right, rightUnit) := magnitude other shift
    ofFraction (low != below) (left * right) (leftUnit * rightUnit)
  | infinite low, other => if other.isZero then undefined else infinite (low != other.isNegative)
  | other, infinite below =>
    if other.isZero then undefined else infinite (below != other.isNegative)

def toInt? : Binary64 → Option Int
  | finite negative significand exponent =>
    let (numerator, denominator) := magnitude significand exponent
    if numerator % denominator = 0 then
      let whole : Int := (numerator / denominator : Nat)
      some (if negative then -whole else whole)
    else none
  | _ => none

end Binary64

end DollarMath
