import DollarMath.Region.Basic
import DollarMath.Text.Span

/-!
Revising the text outside all frozen regions, with parts of it held back.
-/

namespace DollarMath

abbrev Revision := Option Char → List Char → Option Char → List Region

/-- Revise a text except for the spans, which are sorted and given with offsets of which `offset`
is the first in the text. -/
def reviseAround (revise : Revision) (after : Option Char) :
    (before : Option Char) → (offset : Nat) → List Char → List Span → List Region
  | before, _, text, [] => if text.isEmpty then [] else revise before text after
  | before, offset, text, span :: spans =>
    let free := text.take (span.start - offset)
    let rest := text.drop (span.start - offset)
    let held := rest.take (span.stop - span.start)
    let freed := if free.isEmpty then [] else revise before free rest.head?
    freed ++ Region.outside held ::
      reviseAround revise after (held.getLast?.or (free.getLast?.or before)) span.stop
        (rest.drop (span.stop - span.start)) spans

def firstOf : List Region → Option Char
  | [] => none
  | region :: _ => region.text.head?

def reviseOutsideAfter (revise : Revision) (skip : Region → Bool) :
    (before : Option Char) → List Region → List (List Span) → List Region
  | _, [], _ => []
  | before, region :: regions, held =>
    let own :=
      if region.isOutside && !skip region then
        reviseAround revise (firstOf regions) before 0 region.text (held.headD [])
      else [region]
    own ++ reviseOutsideAfter revise skip region.text.getLast? regions held.tail

def reviseOutside (revise : Revision) (regions : List Region)
    (skip : Region → Bool := fun _ => false) (held : List (List Span) := []) : List Region :=
  Piece.fuse (reviseOutsideAfter revise skip none regions held)

/-- What is made of a find: the regions that take its place, or nothing to keep its text. -/
abbrev Build (α : Type) := Option Char → List Char → α → Option Char → Option (List Region)

def substitution {α : Type} (recognize : Text.Recognizer α) (build : Build α) : Revision :=
  fun before text after =>
    (Text.scan recognize none text).flatMap fun
      | .gap char => [Region.outside [char]]
      | .hit previous taken value next =>
        (build (previous.or before) taken value (next.or after)).getD [Region.outside taken]

def marking {α : Type} (recognize : Text.Recognizer α) (kind : RegionKind) : Revision :=
  substitution recognize fun _ taken _ _ => some [⟨kind, taken⟩]

end DollarMath
