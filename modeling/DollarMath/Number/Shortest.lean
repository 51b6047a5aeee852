import DollarMath.Number.Binary64

/-!
The text of a number of double precision: the fewest digits that read back as the number, and of
those the nearest to it.
-/

namespace DollarMath.Binary64

/-- The fractions that round to a positive number, all over one denominator: the number itself and
the two ends, which belong to them if the significand is even. -/
structure Interval where
  low : Nat
  value : Nat
  high : Nat
  denominator : Nat
  closed : Bool
deriving Repr

/-- The interval of a significand and an exponent. Below a power of two the numbers lie twice as
dense as above it. -/
def interval (significand : Nat) (exponent : Int) : Interval :=
  let (numerator, denominator) := magnitude significand exponent
  let unit := numerator / significand
  let isPower := significand = significandLimit / 2 && exponent ≠ leastExponent
  { low := 4 * numerator - (if isPower then unit else 2 * unit)
    value := 4 * numerator
    high := 4 * numerator + 2 * unit
    denominator := 4 * denominator
    closed := significand % 2 = 0 }

def Interval.contains (range : Interval) (numerator denominator : Nat) : Bool :=
  let scaled := numerator * range.denominator
  let low := range.low * denominator
  let high := range.high * denominator
  if range.closed then low ≤ scaled && scaled ≤ high else low < scaled && scaled < high

def Interval.wholeDigits (range : Interval) : Int :=
  let size := (Nat.toDigits 10 (range.value / range.denominator)).length
  if range.denominator ≤ range.value then size
  else
    let inverse := range.denominator / range.value
    let places : Int := (Nat.toDigits 10 inverse).length
    let power := Nat.pow 10 (places - 1).toNat
    if range.value * power * 10 < range.denominator then -places
    else if range.value * power < range.denominator then 1 - places
    else 2 - places

def Interval.digitsAt? (range : Interval) (place : Int) : Option Nat :=
  let grid : Nat × Nat :=
    if 0 ≤ place then (Nat.pow 10 place.toNat, 1) else (1, Nat.pow 10 (-place).toNat)
  let below := range.value * grid.2 / (range.denominator * grid.1)
  let fits (digits : Nat) : Bool := range.contains (digits * grid.1) grid.2
  let nearest := roundDiv (range.value * grid.2) (range.denominator * grid.1)
  if fits nearest then some nearest
  else if fits below then some below
  else if fits (below + 1) then some (below + 1)
  else none

def Interval.shortest (range : Interval) : (count : Nat) → (fuel : Nat) → Nat × Int
  | _, 0 => (0, 0)
  | count, fuel + 1 =>
    let place := range.wholeDigits - count
    match range.digitsAt? place with
    | some digits => (digits, place)
    | none => range.shortest (count + 1) fuel

def trimZeros : (fuel : Nat) → Nat → Int → Nat × Int
  | 0, digits, place => (digits, place)
  | fuel + 1, digits, place =>
    if digits ≠ 0 && digits % 10 = 0 then trimZeros fuel (digits / 10) (place + 1)
    else (digits, place)

/-- Numbers from a ten-thousandth up to sixteen digits are written with a point, and others with an
exponent. -/
def positional (point : Int) : Bool :=
  -4 < point && point ≤ 16

def exponentText (exponent : Int) : String :=
  let digits := toString exponent.natAbs
  (if exponent < 0 then "e-" else "e+") ++ (if digits.length < 2 then "0" ++ digits else digits)

def digitsText (digits : List Char) (point : Int) : String :=
  if positional point then
    if point ≤ 0 then
      "0." ++ String.ofList (List.replicate (-point).toNat '0' ++ digits)
    else
      let whole := digits.take point.toNat
      let zeros := List.replicate (point.toNat - digits.length) '0'
      let fraction := digits.drop point.toNat
      String.ofList (whole ++ zeros ++ '.' :: (if fraction.isEmpty then ['0'] else fraction))
  else
    let fraction := digits.drop 1
    String.ofList (digits.take 1 ++ (if fraction.isEmpty then [] else '.' :: fraction)) ++
      exponentText (point - 1)

def text : Binary64 → String
  | finite negative significand exponent =>
    let sign := if negative then "-" else ""
    if significand = 0 then sign ++ "0.0"
    else
      let (found, place) := (interval significand exponent).shortest 1 17
      let (digits, last) := trimZeros 17 found place
      let chars := Nat.toDigits 10 digits
      sign ++ digitsText chars (chars.length + last)
  | infinite negative => if negative then "-inf" else "inf"
  | undefined => "nan"

end DollarMath.Binary64
