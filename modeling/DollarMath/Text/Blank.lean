/-!
Blank characters and the removal of blanks at the ends of a text.
-/

namespace DollarMath.Text

def isBlankCode (code : Nat) : Bool :=
  (9 ≤ code && code ≤ 13) || (28 ≤ code && code ≤ 32) || code == 0x85 || code == 0xA0 ||
  code == 0x1680 || (0x2000 ≤ code && code ≤ 0x200A) || code == 0x2028 || code == 0x2029 ||
  code == 0x202F || code == 0x205F || code == 0x3000

def isBlank (char : Char) : Bool :=
  isBlankCode char.toNat

def isIndent (char : Char) : Bool :=
  char == ' ' || char == '\t'

def isReturn (char : Char) : Bool :=
  char == '\r' || char == '\n'

def dropRightWhile (drop : Char → Bool) (text : List Char) : List Char :=
  (text.reverse.dropWhile drop).reverse

def stripLeft (text : List Char) : List Char :=
  text.dropWhile isBlank

def stripRight (text : List Char) : List Char :=
  dropRightWhile isBlank text

def strip (text : List Char) : List Char :=
  stripRight (stripLeft text)

def allBlank (text : List Char) : Bool :=
  text.all isBlank

def words : List Char → List (List Char)
  | [] => []
  | char :: rest =>
    if isBlank char then words rest
    else
      match rest, words rest with
      | next :: _, word :: others =>
        if isBlank next then [char] :: word :: others else (char :: word) :: others
      | _, others => [char] :: others

theorem isBlank_of_isIndent {char : Char} (indent : isIndent char = true) :
    isBlank char = true := by
  simp only [isIndent, Bool.or_eq_true, beq_iff_eq] at indent
  rcases indent with rfl | rfl <;> decide

theorem isBlank_of_isReturn {char : Char} (ret : isReturn char = true) :
    isBlank char = true := by
  simp only [isReturn, Bool.or_eq_true, beq_iff_eq] at ret
  rcases ret with rfl | rfl <;> decide

end DollarMath.Text
