import DollarMath.Text.Lowercase

/-!
The two spellings of a key: words in lower case joined by underscores, and words joined by capital
letters. The program has both from a library, by whose documented rules they are spelled here.
-/

namespace DollarMath.KeyCase

def startsWord (left right : Char) (next : Option Char) : Bool :=
  (left.isUpper && right.isUpper && next.any Char.isLower) ||
    (left.isLower && (right.isUpper || right.isDigit)) || (left.isDigit && right.isUpper)

def markWords : List Char → List Char
  | [] => []
  | [char] => [char]
  | left :: right :: rest =>
    if startsWord left right rest.head? then left :: '_' :: markWords (right :: rest)
    else left :: markWords (right :: rest)

def snake (key : String) : String :=
  let marked := (markWords key.toList).map fun char => if char == '-' then '_' else char
  String.ofList (Text.lower marked)

def camelAfter : List Char → List Char
  | [] => []
  | '_' :: char :: rest => char.toUpper :: camelAfter rest
  | char :: rest => char :: camelAfter rest

def camel (key : String) : String :=
  String.ofList (camelAfter key.toList)

end DollarMath.KeyCase
