import DollarMath.Proofs.Conversion.Passes
import DollarMath.Proofs.Region.LineChanges
import DollarMath.Proofs.Region.Rows

/-!
Blank lines next to display math. What is dropped are whole physical lines, each told by its two
neighbours, and no line that is kept can be dropped later.
-/

namespace DollarMath

namespace BlankLines

section Rows

def isBlankRow (row : Row RegionKind) : Bool :=
  Text.allBlank row.text

def isVisible (stroke : Char × RegionKind) : Bool :=
  !Text.isBlank stroke.1

def opens (row : Row RegionKind) : Bool :=
  (row.find? isVisible).any (·.2 == .display) && startsWithDollars (Text.strip row.text)

def closes (row : Row RegionKind) : Bool :=
  (row.reverse.find? isVisible).any (·.2 == .display) && endsWithDollars (Text.strip row.text)

/-- A blank line outside with no blank line next to it, right before a line that opens display math
or right after one that closes it. -/
def isIsolated (above : Option (Row RegionKind)) (row : Row RegionKind)
    (below : Option (Row RegionKind)) : Bool :=
  isBlankRow row && row.all (·.2 == .outside) && !above.any isBlankRow && !below.any isBlankRow &&
    (below.any opens || above.any closes)

def kept (above : Option (Row RegionKind)) (all : List (Row RegionKind)) : List (Row RegionKind) :=
  flatMapAround (fun above row below => if isIsolated above row below then [] else [row]) above all

variable {above below previous : Option (Row RegionKind)} {row : Row RegionKind}
  {all : List (Row RegionKind)}

theorem isBlankRow_of_find? {strokes : List (Char × RegionKind)}
    (same : ∀ stroke, stroke ∈ strokes → stroke ∈ row)
    (seen : (strokes.find? isVisible).any (·.2 == .display) = true) : isBlankRow row = false := by
  cases found : strokes.find? isVisible with
  | none => simp [found] at seen
  | some stroke =>
      have visible := List.find?_some found
      have inRow := same stroke (List.mem_of_find?_eq_some found)
      exact List.all_eq_false.mpr ⟨stroke.1, List.mem_map_of_mem inRow, by
        simpa [isVisible] using visible⟩

theorem not_isBlankRow_of_opens (opened : opens row = true) : isBlankRow row = false := by
  simp only [opens, Bool.and_eq_true] at opened
  exact isBlankRow_of_find? (fun _ => id) opened.1

theorem not_isBlankRow_of_closes (closed : closes row = true) : isBlankRow row = false := by
  simp only [closes, Bool.and_eq_true] at closed
  exact isBlankRow_of_find? (fun _ => List.mem_reverse.mp) closed.1

theorem kept_sublist : (kept above all).Sublist all := by
  induction all generalizing above with
  | nil => exact .slnil
  | cons row rest ih =>
      rw [kept, flatMapAround]
      split
      · exact ih.cons row
      · exact ih.cons_cons row

/-- Whether a kept line is blank between the same neighbours as before does not depend on what was
dropped around it. -/
theorem not_isIsolated_kept
    (agree : previous = above ∨ ∀ row ∈ all.head?, isBlankRow row = false) :
    flatMapAround (fun above row below => if isIsolated above row below then [row] else []) previous
      (kept above all) = [] := by
  induction all generalizing above previous with
  | nil => rfl
  | cons row rest ih =>
      rw [kept, flatMapAround]
      split
      next isolated =>
        refine ih (.inr fun next inRest => ?_)
        simp only [isIsolated, Bool.and_eq_true, Bool.not_eq_true'] at isolated
        have plain := isolated.1.2
        rwa [inRest, Option.any_some] at plain
      next remains =>
        have later := @ih (some row) (some row) (.inl rfl)
        rw [List.singleton_append, flatMapAround, ← kept, later, if_neg, List.append_nil]
        intro isolated
        have alone := isolated
        simp only [isIsolated, Bool.and_eq_true] at alone
        have blank : isBlankRow row = true := alone.1.1.1.1
        have same : previous = above := agree.resolve_right fun noneBlank => by
          simp [noneBlank row rfl] at blank
        have next : (kept (some row) rest).head? = rest.head? := by
          cases rest with
          | nil => rfl
          | cons next rest =>
              rw [kept, flatMapAround, if_neg]
              · rfl
              · intro dropped
                simp [isIsolated, blank] at dropped
        rw [same, next] at isolated
        exact remains isolated

end Rows

section Lines

variable {above below : Option Line} {line : Line}

/-- The first sign of a line lies in its first visible fragment, from either end. -/
theorem any_findSome? {fragments : List Fragment} {strokes : Fragment → List (Char × RegionKind)}
    (same : ∀ fragment stroke,
      stroke ∈ strokes fragment ↔ stroke ∈ fragment.strokes Fragment.kind) :
    (fragments.findSome? fun fragment => (strokes fragment).find? isVisible).any (·.2 == .display) =
      (fragments.find? Fragment.isVisible).any (·.kind == .display) := by
  induction fragments with
  | nil => rfl
  | cons fragment rest ih =>
      rw [List.findSome?_cons, List.find?_cons]
      cases found : (strokes fragment).find? isVisible with
      | none =>
          have blank : fragment.isVisible = false := by
            rw [Fragment.isVisible, Bool.not_eq_false', Text.allBlank, List.all_eq_true]
            intro char member
            have unseen := List.find?_eq_none.mp found (char, fragment.kind)
              ((same fragment _).mpr (List.mem_map_of_mem member))
            simpa [isVisible] using unseen
          rw [blank]
          exact ih
      | some stroke =>
          obtain ⟨char, member, rfl⟩ := List.mem_map.mp
            ((same fragment stroke).mp (List.mem_of_find?_eq_some found))
          have seen : Text.isBlank char = false := by simpa [isVisible] using List.find?_some found
          have visible : fragment.isVisible = true := by
            rw [Fragment.isVisible, Text.allBlank, List.all_eq_false.mpr ⟨char, member, by simp [seen]⟩]
            rfl
          rw [visible]
          rfl

theorem opens_row (line : Line) : opens (line.row Fragment.kind) = opensDisplay line := by
  rw [opens, opensDisplay, Line.text_row, Line.content, Text.strip_lineBody, Line.row,
    List.find?_flatMap, any_findSome? fun _ _ => Iff.rfl]
  rfl

theorem closes_row (line : Line) : closes (line.row Fragment.kind) = closesDisplay line := by
  have last := @any_findSome? line.fragments.reverse (List.reverse ∘ Fragment.strokes Fragment.kind)
    fun _ _ => List.mem_reverse
  rw [closes, closesDisplay, Line.text_row, Line.content, Text.strip_lineBody, Line.row,
    List.reverse_flatMap, List.find?_flatMap, last]
  rfl

theorem isBlankRow_row (line : Line) : isBlankRow (line.row Fragment.kind) = line.isBlank := by
  rw [isBlankRow, Line.text_row, Line.isBlank]

theorem isIsolated_row (placed : line.IsPlaced) :
    isIsolated (above.map (Line.row Fragment.kind)) (line.row Fragment.kind)
      (below.map (Line.row Fragment.kind)) = isDropped above line below := by
  -- A neighbour that display math begins or ends on is not blank, so it need not be asked for.
  have opened : below.any opensDisplay = true → below.any Line.isBlank = false := by
    cases below with
    | none => exact fun _ => rfl
    | some next =>
        intro opened
        rw [Option.any_some, ← opens_row] at opened
        rw [Option.any_some, ← isBlankRow_row, not_isBlankRow_of_opens opened]
  have closed : above.any closesDisplay = true → above.any Line.isBlank = false := by
    cases above with
    | none => exact fun _ => rfl
    | some next =>
        intro closed
        rw [Option.any_some, ← closes_row] at closed
        rw [Option.any_some, ← isBlankRow_row, not_isBlankRow_of_closes closed]
  rw [isIsolated, line.all_row Fragment.kind placed.filled (· == .outside)]
  simp only [Option.any_map, isBlankRow_row, opens_row, closes_row, isDropped, isLoneBlank,
    Line.isOutside]
  cases opensBelow : below.any opensDisplay <;> cases closesAbove : above.any closesDisplay <;>
    simp_all

def change? (above : Option Line) (line : Line) (below : Option Line) (fragment : Fragment) :
    Option Fragment.Change :=
  if isDropped above line below then some ⟨fragment.text.length, []⟩ else none

theorem map_row_kind (regions : List Region) :
    (Line.ofRegions regions).map (Line.row Fragment.kind) = rows (Piece.paint regions) := by
  rw [Line.map_row_ofRegions, ← Fragment.flatMap_paint_ofRegions 0 regions]
  rfl

theorem editsFrom_eq_editsBy (regions : List Region) :
    editsFrom none (Line.ofRegions regions) =
      flatMapAround (fun above line below => line.editsBy (change? above line below)) none
        (Line.ofRegions regions) := by
  rw [editsFrom_eq]
  refine flatMapAround_congr (fun above line below _ placed _ => ?_) (by simp)
    fun line member => Line.isPlaced_of_mem member
  unfold Line.editsBy change?
  split
  next =>
    rw [List.map_eq_flatMap]
    refine List.flatMap_congr fun fragment member => ?_
    simp [Fragment.edit, ← placed.spanEq fragment member]
  next => simp

theorem fits_of_change? {fragment : Fragment} {own : Fragment.Change}
    (inLine : fragment ∈ line.fragments) (changed : change? above line below fragment = some own) :
    fragment.kind = .outside ∧ own.size ≤ fragment.text.length := by
  unfold change? at changed
  split at changed
  next dropped =>
    rw [← Option.some.inj changed]
    exact ⟨(isDropped_blank dropped).2 fragment inLine, Nat.le_refl _⟩
  next => simp at changed

theorem paint_normalize (regions : List Region) :
    Piece.paint (normalize regions) = (kept none (rows (Piece.paint regions))).flatten := by
  rw [normalize, editsFrom_eq_editsBy,
    paint_apply_lines fun _ _ _ _ _ inLine _ => fits_of_change? inLine, kept, ← List.flatMap_id,
    flatMap_flatMapAround, ← map_row_kind, ← Option.map_none (Line.row Fragment.kind),
    flatMapAround_map]
  refine flatMapAround_congr (fun above line below _ placed _ => ?_) (by simp)
    fun line member => Line.isPlaced_of_mem member
  rw [isIsolated_row placed]
  unfold Line.changedBy change?
  split
  next => simp [Fragment.changed]
  next => exact (List.append_nil (line.row Fragment.kind)).symm

theorem rows_normalize (regions : List Region) :
    rows (Piece.paint (normalize regions)) = kept none (rows (Piece.paint regions)) := by
  rw [paint_normalize]
  exact rows_flatten ((areRows_rows _).sublist kept_sublist)

theorem editsFrom_of_settled {regions : List Region}
    (settled : flatMapAround (fun above row below =>
      if isIsolated above row below then [row] else []) none (rows (Piece.paint regions)) = []) :
    editsFrom none (Line.ofRegions regions) = [] := by
  rw [List.eq_nil_iff_forall_not_mem] at settled ⊢
  intro found member
  obtain ⟨front, line, back, _, split, dropped, _, _⟩ := mem_editsFrom member
  have placed := Line.isPlaced_of_mem (show line ∈ Line.ofRegions regions by simp [split])
  refine settled (line.row Fragment.kind) (mem_flatMapAround.mpr
    ⟨front.map (Line.row Fragment.kind), line.row Fragment.kind, back.map (Line.row Fragment.kind),
      ?_, ?_⟩)
  · rw [← map_row_kind, split, List.map_append, List.map_cons]
  · rw [Option.or_none] at dropped
    rw [List.getLast?_map, List.head?_map, Option.or_none, isIsolated_row placed, if_pos dropped]
    exact List.mem_singleton_self _

theorem editsFrom_normalize (regions : List Region) :
    editsFrom none (Line.ofRegions (normalize regions)) = [] := by
  refine editsFrom_of_settled ?_
  rw [rows_normalize]
  exact not_isIsolated_kept (.inl rfl)

theorem normalize_eq_self_iff_editsFrom {regions : List Region} :
    normalize regions = regions ↔ editsFrom none (Line.ofRegions regions) = [] := by
  constructor
  · intro same
    have unedited := editsFrom_normalize regions
    rwa [same] at unedited
  · intro unedited
    rw [normalize, unedited]
    rfl

end Lines

/-- The lines that are kept are the lines of the result, and none of them is dropped later. -/
theorem normalize_rows (regions : List Region) :
    rows (Piece.paint (normalize regions)) =
        flatMapAround (fun above row below => if isIsolated above row below then [] else [row]) none
          (rows (Piece.paint regions)) ∧
      normalize (normalize regions) = normalize regions :=
  ⟨rows_normalize regions, normalize_eq_self_iff_editsFrom.mpr (editsFrom_normalize regions)⟩

end BlankLines

end DollarMath
