import DollarMath.Formula.Line
import DollarMath.Region.Edit
import DollarMath.Region.Line

/-!
Bare lines that are formulas become display math.
-/

namespace DollarMath.FormulaLines

def edit? (newline : List Char) (line : Line) : Option (Nat × Edit) :=
  (line.soleFragment? .outside).bind fun fragment =>
    if Formula.isFormulaLine line.content then
      let body := Text.stripRight line.content
      let block := Region.display (['$', '$'] ++ newline ++ body ++ newline ++ ['$', '$'])
      some (fragment.index,
        ⟨⟨fragment.span.start, fragment.span.start + line.content.length⟩, [block]⟩)
    else none

/-- The edits of some lines, `above` telling whether a display line precedes them. A line next to a
display line stays, so that delimiters never stack. -/
def editsFrom (newline : List Char) : (above : Bool) → List Line → List (Nat × Edit)
  | _, [] => []
  | above, line :: rest =>
    let own :=
      if above || rest.head?.any Line.isDisplay then [] else (edit? newline line).toList
    own ++ editsFrom newline line.isDisplay rest

def promote (regions : List Region) : List Region :=
  let newline := lineEnding (Piece.join regions)
  (EditTable.ofList (editsFrom newline false (Line.ofRegions regions))).apply regions

end DollarMath.FormulaLines
