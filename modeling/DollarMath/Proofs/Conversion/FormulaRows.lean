import DollarMath.Conversion.FormulaLines
import DollarMath.Proofs.Region.LineChanges
import DollarMath.Proofs.Region.Rows

/-!
The promotion of formula lines as a map of physical lines. Which lines are promoted, and what each of
them becomes, is told by the line and its two neighbours alone.
-/

namespace DollarMath

abbrev NumberedRow := Row (Nat × RegionKind)

namespace NumberedRow

def numberedFrom (index : Nat) : List Region → List (Piece (Nat × RegionKind))
  | [] => []
  | region :: regions => ⟨(index, region.kind), region.text⟩ :: numberedFrom (index + 1) regions

def ofRegions (regions : List Region) : List NumberedRow :=
  rows (Piece.paint (numberedFrom 0 regions))

def paint (row : NumberedRow) : Painted :=
  row.map fun stroke => (stroke.1, stroke.2.2)

def content (row : NumberedRow) : List Char :=
  Text.lineBody (Row.text row)

def isDisplay (row : NumberedRow) : Bool :=
  Text.strip row.content == ['$', '$'] || row.any fun stroke => stroke.2.2 == .display

def liesOutside (row : NumberedRow) : Bool :=
  row.head?.any fun first => first.2.2 == .outside && row.all fun stroke => stroke.2 == first.2

theorem join_numberedFrom (index : Nat) (regions : List Region) :
    Piece.join (numberedFrom index regions) = Piece.join regions := by
  induction regions generalizing index with
  | nil => rfl
  | cons region regions ih => rw [numberedFrom, Piece.join_cons, ih, Piece.join_cons]

theorem paint_append (first second : NumberedRow) :
    paint (first ++ second) = paint first ++ paint second :=
  List.map_append

theorem paint_paint_numberedFrom (index : Nat) (regions : List Region) :
    paint (Piece.paint (numberedFrom index regions)) = Piece.paint regions := by
  induction regions generalizing index with
  | nil => rfl
  | cons region regions ih =>
      rw [numberedFrom, Piece.paint_cons, paint_append, ih, Piece.paint_cons]
      simp [paint, Function.comp_def]

theorem flatMap_paint_ofRegions (regions : List Region) :
    (ofRegions regions).flatMap paint = Piece.paint regions := by
  rw [← paint_paint_numberedFrom 0 regions]
  calc (ofRegions regions).flatMap paint
    _ = paint (ofRegions regions).flatten := List.map_flatten.symm
    _ = paint (Piece.paint (numberedFrom 0 regions)) := by rw [ofRegions, flatten_rows]

def label (fragment : Fragment) : Nat × RegionKind :=
  (fragment.index, fragment.kind)

theorem flatMap_strokes_ofLines (index offset : Nat) (kind : RegionKind) (lines : List (List Char)) :
    (Fragment.ofLines index kind offset lines).flatMap (Fragment.strokes label) =
      lines.flatten.map (·, (index, kind)) := by
  induction lines generalizing offset with
  | nil => rfl
  | cons line lines ih => simp [Fragment.ofLines, ih, Fragment.strokes, label]

theorem flatMap_strokes_ofRegions (index : Nat) (regions : List Region) :
    (Fragment.ofRegions index regions).flatMap (Fragment.strokes label) =
      Piece.paint (numberedFrom index regions) := by
  induction regions generalizing index with
  | nil => rfl
  | cons region regions ih =>
      rw [Fragment.ofRegions, List.flatMap_append, ih, Fragment.ofRegion, flatMap_strokes_ofLines,
        Text.flatten_physicalLines, numberedFrom, Piece.paint_cons]

theorem ofRegions_eq (regions : List Region) :
    ofRegions regions = (Line.ofRegions regions).map (Line.row label) := by
  rw [ofRegions, Line.map_row_ofRegions, flatMap_strokes_ofRegions]

theorem paint_row (line : Line) : paint (line.row label) = line.fragments.flatMap Fragment.paint := by
  rw [paint, Line.row, List.map_flatMap]
  refine List.flatMap_congr fun fragment _ => ?_
  simp [Fragment.strokes, Fragment.paint, label]

theorem isDisplay_row {line : Line} (placed : line.IsPlaced) :
    isDisplay (line.row label) = line.isDisplay := by
  rw [isDisplay, content, Line.text_row,
    line.any_row label placed.filled fun value => value.2 == .display]
  rfl

theorem liesOutside_row {line : Line} (placed : line.IsPlaced) :
    liesOutside (line.row label) = (line.soleFragment? .outside).isSome := by
  obtain ⟨first, rest, fragmentsEq⟩ := List.exists_cons_of_ne_nil placed.nonempty
  obtain ⟨char, text, textEq⟩ := List.exists_cons_of_ne_nil
    (placed.filled first (by simp [fragmentsEq]))
  have head : (line.row label).head? = some (char, label first) := by
    simp [Line.row, fragmentsEq, Fragment.strokes, textEq]
  rw [liesOutside, head, Option.any_some,
    line.all_row label placed.filled fun value => value == label first]
  cases rest with
  | nil =>
      by_cases free : first.kind = .outside
      · simp [Line.soleFragment?, fragmentsEq, free, label]
      · simp [Line.soleFragment?, fragmentsEq, free, label]
  | cons second rest =>
      have apart := placed.apart first second rest fragmentsEq
      simp [Line.soleFragment?, fragmentsEq, label, apart.symm]

end NumberedRow

namespace FormulaLines

/-- A line in one region outside that is a formula, with no display line next to it. -/
def isPromoted (above : Option NumberedRow) (row : NumberedRow) (below : Option NumberedRow) : Bool :=
  row.liesOutside && Formula.isFormulaLine row.content &&
    !(above.any NumberedRow.isDisplay || below.any NumberedRow.isDisplay)

def promoted (newline : List Char) (row : NumberedRow) : Painted :=
  Piece.paint [Region.display
    (['$', '$'] ++ newline ++ Text.stripRight row.content ++ newline ++ ['$', '$'])] ++
      Painted.outside (Text.lineReturn (Row.text row))

def isPromotedLine (above : Option Line) (line : Line) (below : Option Line) : Bool :=
  (line.soleFragment? .outside).isSome && Formula.isFormulaLine line.content &&
    !(above.any Line.isDisplay || below.any Line.isDisplay)

def change? (newline : List Char) (above : Option Line) (line : Line) (below : Option Line)
    (_ : Fragment) : Option Fragment.Change :=
  if isPromotedLine above line below then
    some ⟨line.content.length, [Region.display
      (['$', '$'] ++ newline ++ Text.stripRight line.content ++ newline ++ ['$', '$'])]⟩
  else none

theorem sole_of_isPromotedLine {above below : Option Line} {line : Line}
    (isFormula : isPromotedLine above line below = true) :
    ∃ fragment, line.fragments = [fragment] ∧ fragment.kind = .outside ∧
      fragment.text = line.text := by
  simp only [isPromotedLine, Bool.and_eq_true] at isFormula
  obtain ⟨fragment, sole⟩ := Option.isSome_iff_exists.mp isFormula.1.1
  obtain ⟨fragmentsEq, free⟩ := Line.soleFragment?_eq_some.mp sole
  exact ⟨fragment, fragmentsEq, free, by simp [Line.text, fragmentsEq]⟩

theorem edits_line (newline : List Char) (above : Option Line) (line : Line) (below : Option Line) :
    (if above.any Line.isDisplay || below.any Line.isDisplay then []
      else (edit? newline line).toList) = line.editsBy (change? newline above line below) := by
  unfold Line.editsBy
  cases sole : line.soleFragment? .outside with
  | none => simp [edit?, change?, isPromotedLine, sole]
  | some fragment =>
      rw [(Line.soleFragment?_eq_some.mp sole).1]
      cases display : above.any Line.isDisplay || below.any Line.isDisplay with
      | true => simp [change?, isPromotedLine, display]
      | false =>
          by_cases formula : Formula.isFormulaLine line.content = true
          · simp [edit?, change?, isPromotedLine, display, sole, formula, Fragment.edit]
          · simp [edit?, change?, isPromotedLine, sole, formula]

theorem editsFrom_eq (newline : List Char) (above : Option Line) (lines : List Line) :
    editsFrom newline (above.any Line.isDisplay) lines =
      flatMapAround (fun above line below => line.editsBy (change? newline above line below)) above
        lines := by
  induction lines generalizing above with
  | nil => rfl
  | cons line lines ih =>
      rw [editsFrom, flatMapAround, ← ih, ← edits_line]
      rfl

theorem isPromoted_row {above below : Option Line} {line : Line}
    (first : ∀ other ∈ above, other.IsPlaced) (placed : line.IsPlaced)
    (last : ∀ other ∈ below, other.IsPlaced) :
    isPromoted (above.map (Line.row NumberedRow.label)) (line.row NumberedRow.label)
      (below.map (Line.row NumberedRow.label)) = isPromotedLine above line below := by
  have display : ∀ neighbour : Option Line, (∀ other ∈ neighbour, other.IsPlaced) →
      (neighbour.map (Line.row NumberedRow.label)).any NumberedRow.isDisplay =
        neighbour.any Line.isDisplay := by
    intro neighbour isPlaced
    cases neighbour with
    | none => rfl
    | some other => exact NumberedRow.isDisplay_row (isPlaced other rfl)
  rw [isPromoted, NumberedRow.liesOutside_row placed, NumberedRow.content, Line.text_row,
    display above first, display below last]
  rfl

theorem changed_line (newline : List Char) {above below : Option Line} {line : Line}
    (first : ∀ other ∈ above, other.IsPlaced) (placed : line.IsPlaced)
    (last : ∀ other ∈ below, other.IsPlaced) :
    line.changedBy (change? newline above line below) =
      if isPromoted (above.map (Line.row NumberedRow.label)) (line.row NumberedRow.label)
          (below.map (Line.row NumberedRow.label)) then
        promoted newline (line.row NumberedRow.label)
      else NumberedRow.paint (line.row NumberedRow.label) := by
  rw [isPromoted_row first placed last, Line.changedBy]
  unfold change?
  split
  next isFormula =>
    obtain ⟨fragment, fragmentsEq, _, textEq⟩ := sole_of_isPromotedLine isFormula
    rw [fragmentsEq, List.flatMap_singleton, Fragment.changed, promoted, NumberedRow.content,
      Line.text_row, textEq]
    rfl
  next => exact (NumberedRow.paint_row line).symm

theorem fits_of_change? {newline : List Char} {above below : Option Line} {line : Line}
    {fragment : Fragment} {own : Fragment.Change} (inLine : fragment ∈ line.fragments)
    (changed : change? newline above line below fragment = some own) :
    fragment.kind = .outside ∧ own.size ≤ fragment.text.length := by
  unfold change? at changed
  split at changed
  next isFormula =>
    obtain ⟨only, fragmentsEq, free, textEq⟩ := sole_of_isPromotedLine isFormula
    rw [fragmentsEq, List.mem_singleton] at inLine
    subst inLine
    have parts := congrArg List.length (Text.lineBody_append_lineReturn line.text)
    rw [List.length_append] at parts
    refine ⟨free, ?_⟩
    rw [← Option.some.inj changed, textEq, ← parts]
    exact Nat.le_add_right _ _
  next => simp at changed

/-- The rows are the physical lines of the document with all its characters and their kinds, and each
of them is promoted or kept as it is. -/
theorem promote_rows (regions : List Region) :
    (NumberedRow.ofRegions regions).map Row.text = Text.physicalLines (Piece.join regions) ∧
      (NumberedRow.ofRegions regions).flatMap NumberedRow.paint = Piece.paint regions ∧
      Piece.paint (promote regions) =
        flatMapAround (fun above row below =>
          if isPromoted above row below then promoted (lineEnding (Piece.join regions)) row
          else row.paint) none (NumberedRow.ofRegions regions) := by
  refine ⟨?_, NumberedRow.flatMap_paint_ofRegions regions, ?_⟩
  · rw [NumberedRow.ofRegions, map_text_rows, Piece.map_fst_paint, NumberedRow.join_numberedFrom]
  · have edits := editsFrom_eq (lineEnding (Piece.join regions)) none (Line.ofRegions regions)
    rw [Option.any_none] at edits
    rw [promote, edits, paint_apply_lines fun _ _ _ _ _ inLine _ => fits_of_change? inLine,
      NumberedRow.ofRegions_eq, ← Option.map_none (Line.row NumberedRow.label), flatMapAround_map]
    exact flatMapAround_congr (fun above line below => changed_line _) (by simp)
      fun line member => Line.isPlaced_of_mem member

end FormulaLines
end DollarMath
