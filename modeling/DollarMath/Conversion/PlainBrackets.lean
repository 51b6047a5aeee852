import DollarMath.Formula.Guard
import DollarMath.Region.Edit
import DollarMath.Region.Line
import DollarMath.Text.Group

/-!
Balanced spans in plain brackets that read as math become inline math.
-/

namespace DollarMath.PlainBrackets

structure Style where
  opening : Char
  closing : Char
  accepts : Formula.Candidate → Bool

def parens : Style := ⟨'(', ')', Formula.Candidate.isMathInParens⟩

def squares : Style := ⟨'[', ']', Formula.Candidate.isMathInSquares⟩

def candidate (document inside : List Char) (opening : Nat) : Formula.Candidate :=
  let closing := opening + 1 + inside.length
  { before := (document.take opening).drop (opening - Formula.contextWindow)
    inside := inside
    inner := Text.strip inside
    after := (document.drop (closing + 1)).take Formula.contextWindow }

/-- The edit that makes a group of a region's text inline math, `offset` being where the region
starts in the document. A group that is blank, or holds a line feed or a dollar, or opens in a span
held back, stays. -/
def edit? (style : Style) (document : List Char) (offset : Nat) (held : List Span)
    (text : List Char) (group : Nat × Nat) : Option Edit :=
  let inside := Span.slice ⟨group.1 + 1, group.2⟩ text
  let inner := Text.strip inside
  if inner.isEmpty || inside.contains '\n' || inside.contains '$' then none
  else if held.any (·.contains group.1) then none
  else if style.accepts (candidate document inside (offset + group.1)) then
    some ⟨⟨group.1, group.2 + 1⟩, [Region.dollars inner]⟩
  else none

def convertText (style : Style) (document : List Char) (offset : Nat) (held : List Span)
    (text : List Char) : List Region :=
  Edit.cut text 0
    ((Text.groups style.opening style.closing text).filterMap
      (edit? style document offset held text))

def convertFrom (style : Style) (document : List Char) (offset : Nat) :
    List Region → List (List Span) → List Region
  | [], _ => []
  | region :: regions, held =>
    (if region.isOutside then
      convertText style document offset (held.headD []) region.text
    else [region]) ++
      convertFrom style document (offset + region.text.length) regions held.tail

def convert (style : Style) (regions : List Region) : List Region :=
  Piece.fuse (convertFrom style (Piece.join regions) 0 regions (strayDollars regions))

end DollarMath.PlainBrackets
