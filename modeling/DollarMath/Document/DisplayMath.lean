import DollarMath.Region.Basic
import DollarMath.Text.Lines
import DollarMath.Text.Span

/-!
Display math: what stands between two lines of two dollars, or between two pairs of dollars on one
line.
-/

namespace DollarMath.DisplayMath

def isDelimiterLine (line : List Char) : Bool :=
  Text.strip line == ['$', '$']

def onLine : Text.Recognizer Unit
  | _, '$' :: '$' :: first :: rest =>
    match Text.splitAtFirst? ['$', '$'] rest with
    | some (body, _) =>
      if (first :: body).contains '\n' then none else some (body.length + 5, ())
    | none => none
  | _, _ => none

def closer? (line : List Char) : Option (List Char → Bool) :=
  if isDelimiterLine line then some isDelimiterLine else none

theorem block?_eq_some_iff {line last : List Char} {rest inside after : List (List Char)} :
    Text.block? closer? line rest = some (inside, last, after) ↔
      isDelimiterLine line = true ∧ rest = inside ++ last :: after ∧
        (∀ other ∈ inside, isDelimiterLine other = false) ∧ isDelimiterLine last = true := by
  rw [Text.block?_eq_some_iff, closer?]
  by_cases opens : isDelimiterLine line = true <;> simp [opens]

def spansFrom (offset : Nat) : List (List Char) → List Span
  | [] => []
  | line :: rest =>
    match _found : Text.block? closer? line rest with
    | some (inside, last, after) =>
      let stop := offset + line.length + inside.flatten.length + last.length
      ⟨offset, stop⟩ :: spansFrom stop after
    | none =>
      Text.hitSpans offset (Text.scan onLine none line) ++ spansFrom (offset + line.length) rest
termination_by lines => lines.length
decreasing_by
  · have := Text.block?_length _found
    simp only [List.length_cons]
    omega
  · simp

/-- Where display math lies in a text. A block goes from the start of its first delimiter line to
the end of the second, line end included; a delimiter line without a second one opens nothing. -/
def spans (text : List Char) : List Span :=
  spansFrom 0 (Text.lines text)

/-- The text of the regions in which frozen characters, line ends apart, cannot be read as math. -/
def masked (regions : List Region) : List Char :=
  regions.flatMap fun region =>
    if region.isOutside then region.text
    else region.text.map fun char => if Text.isReturn char then char else '\x00'

def markText (spans : List Span) (offset : Nat) : List Char → List Region
  | [] => []
  | char :: rest =>
    let region :=
      if spans.any (·.contains offset) then Region.display [char] else Region.outside [char]
    region :: markText spans (offset + 1) rest

def markFrom (spans : List Span) (offset : Nat) : List Region → List Region
  | [] => []
  | region :: regions =>
    (if region.isOutside then markText spans offset region.text else [region]) ++
      markFrom spans (offset + region.text.length) regions

def split (regions : List Region) : List Region :=
  let found := spans (masked regions)
  if found.isEmpty then regions else Piece.fuse (markFrom found 0 regions)

end DollarMath.DisplayMath
