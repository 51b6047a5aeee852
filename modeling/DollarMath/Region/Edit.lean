import DollarMath.Region.Revision

/-!
Edits of one text: ranges of it with the regions that take their place.
-/

namespace DollarMath

structure Edit where
  span : Span
  replacement : List Region
deriving DecidableEq, Repr

namespace Edit

/-- Cut a text at edits in the order given. An edit that starts before the end of the last one used
is passed over; the text between edits stays outside. -/
def cut (text : List Char) : (offset : Nat) → List Edit → List Region
  | offset, [] => [Region.outside (text.drop offset)]
  | offset, edit :: edits =>
    if edit.span.start < offset then cut text offset edits
    else
      Region.outside (Span.slice ⟨offset, edit.span.start⟩ text) ::
        (edit.replacement ++ cut text edit.span.stop edits)

def sorted (edits : List Edit) : List Edit :=
  edits.mergeSort fun first second => first.span.start ≤ second.span.start

def splice (text : List Char) (edits : List Edit) : List Region :=
  cut text 0 (sorted edits)

end Edit

abbrev EditTable := List (Nat × List Edit)

namespace EditTable

/-- The edits of a region; of several entries the last one counts. -/
def find? (table : EditTable) (index : Nat) : Option (List Edit) :=
  (table.reverse.find? (·.1 == index)).map Prod.snd

def ofList (edits : List (Nat × Edit)) : EditTable :=
  (edits.map Prod.fst).eraseDups.map fun index =>
    (index, (edits.filter (·.1 == index)).map Prod.snd)

def applyFrom (table : EditTable) (index : Nat) : List Region → List Region
  | [] => []
  | region :: regions =>
    (match table.find? index with
      | some edits => Edit.splice region.text edits
      | none => [region]) ++ applyFrom table (index + 1) regions

/-- Edit the regions and fuse them. Without any entry the document stays as it is. -/
def apply (table : EditTable) (regions : List Region) : List Region :=
  if table.isEmpty then regions else Piece.fuse (applyFrom table 0 regions)

end EditTable

end DollarMath
