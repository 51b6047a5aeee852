/-!
Characters by their codes: sets given as ranges, texts in the order of their codes, and codes in base
sixteen.
-/

namespace DollarMath.Text

def inRanges (ranges : List (Nat × Nat)) (code : Nat) : Bool :=
  ranges.any fun range => range.1 ≤ code && code ≤ range.2

theorem inRanges_iff (ranges : List (Nat × Nat)) (code : Nat) :
    inRanges ranges code = true ↔ ∃ range ∈ ranges, range.1 ≤ code ∧ code ≤ range.2 := by
  simp [inRanges]

def precedes : List Char → List Char → Bool
  | [], _ => true
  | _ :: _, [] => false
  | left :: first, right :: second =>
    left.toNat < right.toNat || (left == right && precedes first second)

def sort (texts : List (List Char)) : List (List Char) :=
  texts.mergeSort precedes

def sortStrings (texts : List String) : List String :=
  texts.mergeSort fun first second => precedes first.toList second.toList

def isHex (char : Char) : Bool :=
  char.isDigit || ('a' ≤ char && char ≤ 'f') || ('A' ≤ char && char ≤ 'F')

def hexDigit (value : Nat) : Char :=
  Char.ofNat (if value < 10 then '0'.toNat + value else 'a'.toNat + value - 10)

def hexDigits : (width : Nat) → Nat → List Char
  | 0, _ => []
  | width + 1, value => hexDigits width (value / 16) ++ [hexDigit (value % 16)]

end DollarMath.Text
