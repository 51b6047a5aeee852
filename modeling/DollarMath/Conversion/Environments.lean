import DollarMath.Conversion.Delimiters
import DollarMath.Region.Revision

/-!
Environments of matrices and aligned equations become display math.
-/

namespace DollarMath.Environments

def names : List (List Char) :=
  ["bmatrix", "pmatrix", "vmatrix", "Vmatrix", "matrix", "smallmatrix", "cases", "array", "align",
    "aligned"].map String.toList

def afterBegin? (text : List Char) : Option (List Char × List Char) :=
  (Text.afterWord? ['\\', 'b', 'e', 'g', 'i', 'n', '{'] text).bind fun rest =>
    names.findSome? fun name =>
      (Text.afterWord? (name ++ ['}']) rest).map fun after => (name, after)

def endOf (name : List Char) : List Char :=
  ['\\', 'e', 'n', 'd', '{'] ++ name ++ ['}']

def afterEnvironment? (text : List Char) : Option (List Char) :=
  (afterBegin? text).bind fun begun =>
    (Text.splitAtFirst? (endOf begun.1) begun.2).map Prod.snd

def environment : Text.Recognizer (List Char) :=
  fun before text =>
    let indent := if before.any (· != '\n') then [] else text.takeWhile Text.isIndent
    (afterEnvironment? (text.drop indent.length)).map fun rest =>
      (text.length - rest.length, indent)

/-- Display math around an environment, indented as it was. Where the indentation turns out not to
start a line it stays as text before the block. -/
def toDisplay (newline : List Char) : Build (List Char) :=
  fun previous taken indent next =>
    let body := taken.drop indent.length
    if !indent.isEmpty && previous.any (· != '\n') then
      some (Region.outside indent :: displayBlock newline [] body indent.getLast? next)
    else some (displayBlock newline indent body previous next)

def wrap (regions : List Region) : List Region :=
  let newline := lineEnding (Piece.join regions)
  reviseOutside (substitution environment (toDisplay newline)) regions

end DollarMath.Environments
