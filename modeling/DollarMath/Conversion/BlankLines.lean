import DollarMath.Region.Edit
import DollarMath.Region.Line

/-!
A single blank line right before or right after display math is dropped.
-/

namespace DollarMath.BlankLines

def startsWithDollars (text : List Char) : Bool :=
  ['$', '$'].isPrefixOf text

def endsWithDollars (text : List Char) : Bool :=
  ['$', '$'].isSuffixOf text

def opensDisplay (line : Line) : Bool :=
  line.firstVisible?.any (·.kind == .display) && startsWithDollars (Text.strip line.content)

def closesDisplay (line : Line) : Bool :=
  line.lastVisible?.any (·.kind == .display) && endsWithDollars (Text.strip line.content)

def isLoneBlank (line : Line) (neighbour : Option Line) : Bool :=
  line.isBlank && line.isOutside && !neighbour.any Line.isBlank

def isDropped (above : Option Line) (line : Line) (below : Option Line) : Bool :=
  (below.any opensDisplay && isLoneBlank line above) ||
    (above.any closesDisplay && isLoneBlank line below)

def editsFrom : (above : Option Line) → List Line → List (Nat × Edit)
  | _, [] => []
  | above, line :: rest =>
    let own :=
      if isDropped above line rest.head? then
        line.fragments.map fun fragment => (fragment.index, ⟨fragment.span, []⟩)
      else []
    own ++ editsFrom (some line) rest

/-- Drop single blank lines next to display math; runs of blank lines stay. -/
def normalize (regions : List Region) : List Region :=
  (EditTable.ofList (editsFrom none (Line.ofRegions regions))).apply regions

end DollarMath.BlankLines
