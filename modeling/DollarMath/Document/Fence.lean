import DollarMath.Region.Basic
import DollarMath.Text.Lines
import DollarMath.Text.Span

/-!
Fenced code: a line of three or more backticks opens a block that runs to the first later line of
at least as many. A fence that is never closed is prose.
-/

namespace DollarMath

inductive SegmentKind where
  | code
  | prose
deriving DecidableEq, Repr

abbrev Segment := Piece SegmentKind

structure Located extends Segment where
  span : Span

def Located.ofSpan (text : List Char) (part : SegmentKind × Span) : Located :=
  ⟨⟨part.1, part.2.slice text⟩, part.2⟩

namespace Fence

def ticks (line : List Char) : Nat × List Char :=
  let body := Text.lineBody line
  let marks := body.dropWhile (· == ' ')
  if body.length - marks.length ≤ 3 then
    ((marks.takeWhile (· == '\x60')).length, marks.dropWhile (· == '\x60'))
  else (0, marks)

def opens? (line : List Char) : Option Nat :=
  let (width, rest) := ticks line
  if 3 ≤ width && !rest.contains '\x60' then some width else none

def closes (width : Nat) (line : List Char) : Bool :=
  let (own, rest) := ticks line
  3 ≤ own && width ≤ own && rest.all Text.isIndent

def closer? (line : List Char) : Option (List Char → Bool) :=
  (opens? line).map closes

def proseSpan (start stop : Nat) : List (SegmentKind × Span) :=
  if start < stop then [(.prose, ⟨start, stop⟩)] else []

/-- The spans of the segments of a text from the prose on that starts at `start`, the lines from
`offset` on being left to read. -/
def spansFrom (start offset : Nat) : List (List Char) → List (SegmentKind × Span)
  | [] => proseSpan start offset
  | line :: rest =>
    match _found : Text.block? closer? line rest with
    | some (inside, last, after) =>
      let stop := offset + line.length + inside.flatten.length + (Text.lineBody last).length
      proseSpan start offset ++ (.code, ⟨offset, stop⟩) ::
        spansFrom stop (stop + (Text.lineReturn last).length) after
    | none => spansFrom start (offset + line.length) rest
termination_by lines => lines.length
decreasing_by
  · have := Text.block?_length _found
    simp only [List.length_cons]
    omega
  · simp

def locate (text : List Char) : List Located :=
  (spansFrom 0 0 (Text.lines text)).map (Located.ofSpan text)

def split (text : List Char) : List Segment :=
  (locate text).map Located.toPiece

end Fence

/-- Pieces with the offsets that they start at, laid end to end from an offset on. -/
def Piece.place {κ : Type} (offset : Nat) : List (Piece κ) → List (Nat × Piece κ)
  | [] => []
  | piece :: pieces => (offset, piece) :: place (offset + piece.text.length) pieces

end DollarMath
