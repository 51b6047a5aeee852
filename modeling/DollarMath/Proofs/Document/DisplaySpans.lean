import DollarMath.Proofs.Document.Seams
import DollarMath.Proofs.Document.WithReturns
import Mathlib.Data.List.Basic

/-!
Where display math lies in a text, in closed form: the delimiter lines pair up in their order, each
pair covers the lines from one to the other, and every other line is searched on its own. Of the
characters of a document exactly those outside that such a span covers become display math.
-/

namespace DollarMath.DisplayMath

def inPairs : List Nat → List (Nat × Nat)
  | first :: second :: rest => (first, second) :: inPairs rest
  | _ => []

def blockRows (row : Nat) (lines : List (List Char)) : List (Nat × Nat) :=
  inPairs (lines.findIdxs isDelimiterLine row)

def rowsSpan (lines : List (List Char)) (rows : Nat × Nat) : Span :=
  ⟨(lines.take rows.1).flatten.length, (lines.take (rows.2 + 1)).flatten.length⟩

def rowHits (lines : List (List Char)) (row : Nat) (line : List Char) : List Span :=
  Text.hitSpans (lines.take row).flatten.length (Text.scan onLine none line)

def IsOnLine (hit : List Char) : Prop :=
  ∃ body, hit = '$' :: '$' :: body ++ ['$', '$'] ∧ body ≠ [] ∧ '\n' ∉ body ∧
    ∀ shorter, shorter ≠ [] → shorter ++ ['$', '$'] <+: body ++ ['$', '$'] → shorter = body

theorem block?_eq_none_iff {line : List Char} {rest : List (List Char)} :
    Text.block? closer? line rest = none ↔
      (isDelimiterLine line = true → ∀ other ∈ rest, isDelimiterLine other = false) := by
  rw [Text.block?_eq_none_iff, closer?]
  by_cases opens : isDelimiterLine line = true <;> simp [opens]

theorem findIdxs_plain {lines : List (List Char)} {row : Nat}
    (plain : ∀ line ∈ lines, isDelimiterLine line = false) :
    lines.findIdxs isDelimiterLine row = [] :=
  List.findIdxs_eq_nil_iff.mpr plain

theorem blockRows_block {line last : List Char} {rest inside after : List (List Char)} {row : Nat}
    (found : Text.block? closer? line rest = some (inside, last, after)) :
    blockRows row (line :: rest) =
      (row, row + inside.length + 1) :: blockRows (row + inside.length + 2) after := by
  obtain ⟨opens, rfl, plain, closes⟩ := block?_eq_some_iff.mp found
  rw [blockRows, List.findIdxs_cons, if_pos opens, List.findIdxs_append, findIdxs_plain plain,
    List.nil_append, List.findIdxs_cons, if_pos closes, inPairs, blockRows]
  simp only [Nat.add_assoc, Nat.add_comm 1]

theorem blockRows_line {line : List Char} {rest : List (List Char)} {row : Nat}
    (noBlock : Text.block? closer? line rest = none) :
    blockRows row (line :: rest) = blockRows (row + 1) rest := by
  rw [blockRows, List.findIdxs_cons, blockRows]
  split
  next opens =>
    rw [findIdxs_plain (block?_eq_none_iff.mp noBlock opens)]
    rfl
  next => rfl

theorem mem_inPairs {rows : List Nat} {block : Nat × Nat} (member : block ∈ inPairs rows) :
    block.1 ∈ rows ∧ block.2 ∈ rows := by
  fun_induction inPairs rows with
  | case1 first second rest ih =>
      rcases List.mem_cons.mp member with rfl | later
      · simp
      · simp [ih later]
  | case2 rows other => simp at member

theorem le_of_mem_blockRows {row : Nat} {lines : List (List Char)} {block : Nat × Nat}
    (member : block ∈ blockRows row lines) : row ≤ block.1 :=
  List.ge_of_mem_findIdxs _ (mem_inPairs member).1

theorem flatten_take_left (above lines : List (List Char)) :
    ((above ++ lines).take above.length).flatten = above.flatten := by
  rw [List.take_left]

theorem mem_spansFrom_iff {lines : List (List Char)} {span : Span} {offset : Nat} :
    ∀ {above : List (List Char)}, offset = above.flatten.length →
      (span ∈ spansFrom offset lines ↔
        (∃ rows ∈ blockRows above.length lines, span = rowsSpan (above ++ lines) rows) ∨
          ∃ row line, above.length ≤ row ∧ (above ++ lines)[row]? = some line ∧
            (∀ rows ∈ blockRows above.length lines, ¬(rows.1 ≤ row ∧ row ≤ rows.2)) ∧
            span ∈ rowHits (above ++ lines) row line) := by
  fun_induction spansFrom offset lines with
  | case1 =>
      intro above _
      have noRows : ∀ row line, above.length ≤ row → (above ++ [])[row]? ≠ some line := by
        intro row line lower found
        rw [List.append_nil, List.getElem?_eq_none lower] at found
        simp at found
      constructor
      · simp
      · rintro (⟨rows, member, _⟩ | ⟨row, line, lower, found, _⟩)
        · exact absurd member (by simp [blockRows, inPairs])
        · exact absurd found (noRows row line lower)
  | case2 offset line rest inside last after found stop =>
      rename_i ih
      intro above start
      have restEq := (block?_eq_some_iff.mp found).2.1
      have shift : above ++ line :: rest = (above ++ line :: (inside ++ [last])) ++ after := by
        simp [restEq]
      have rowsEq : above.length + inside.length + 2 =
          (above ++ line :: (inside ++ [last])).length := by simp; omega
      have stopEq : stop = (above ++ line :: (inside ++ [last])).flatten.length := by
        simp [stop, start]; omega
      have own : (⟨offset, stop⟩ : Span) =
          rowsSpan (above ++ line :: rest) (above.length, above.length + inside.length + 1) := by
        rw [rowsSpan, flatten_take_left, shift, rowsEq, flatten_take_left, start, stopEq]
      rw [List.mem_cons, ih stopEq, ← shift, own, blockRows_block found, rowsEq]
      constructor
      · rintro (rfl | ⟨rows, member, rfl⟩ | ⟨row, own, lower, found, free, hit⟩)
        · exact .inl ⟨_, List.mem_cons_self, rfl⟩
        · exact .inl ⟨rows, List.mem_cons_of_mem _ member, rfl⟩
        · refine .inr ⟨row, own, by omega, found, List.forall_mem_cons.mpr ⟨?_, free⟩, hit⟩
          dsimp only
          omega
      · rintro (⟨rows, member, rfl⟩ | ⟨row, own, lower, found, free, hit⟩)
        · rcases List.mem_cons.mp member with rfl | later
          · exact .inl rfl
          · exact .inr (.inl ⟨rows, later, rfl⟩)
        · obtain ⟨outside, free⟩ := List.forall_mem_cons.mp free
          dsimp only at outside
          exact .inr (.inr ⟨row, own, by omega, found, free, hit⟩)
  | case3 offset line rest noBlock ih =>
      intro above start
      have shift : above ++ line :: rest = (above ++ [line]) ++ rest := by simp
      have rowsEq : above.length + 1 = (above ++ [line]).length := by simp
      have here : (above ++ line :: rest)[above.length]? = some line := by simp
      have hits : Text.hitSpans offset (Text.scan onLine none line) =
          rowHits (above ++ line :: rest) above.length line := by
        rw [rowHits, flatten_take_left, start]
      rw [List.mem_append, @ih (above ++ [line]) (by simp [start]), ← shift, ← rowsEq, hits,
        blockRows_line noBlock]
      constructor
      · rintro (hit | block | ⟨row, own, lower, found, free, hit⟩)
        · refine .inr ⟨above.length, line, Nat.le_refl _, here, fun rows member => ?_, hit⟩
          have later := le_of_mem_blockRows member
          omega
        · exact .inl block
        · exact .inr ⟨row, own, by omega, found, free, hit⟩
      · rintro (block | ⟨row, own, lower, found, free, hit⟩)
        · exact .inr (.inl block)
        · rcases Nat.eq_or_lt_of_le lower with rfl | further
          · obtain rfl : line = own := by simpa [here] using found
            exact .inl hit
          · exact .inr (.inr ⟨row, own, further, found, free, hit⟩)

theorem lieApart_spansFrom (offset : Nat) (lines : List (List Char)) :
    Text.LieApart offset (offset + lines.flatten.length) (spansFrom offset lines) := by
  fun_induction spansFrom offset lines with
  | case1 offset => exact .nil (Nat.le_refl _)
  | case2 offset line rest inside last after found stop ih =>
      obtain ⟨opens, restEq, _⟩ := block?_eq_some_iff.mp found
      have filled : line ≠ [] := by
        rintro rfl
        exact absurd opens (by decide)
      have length : offset + (line :: rest).flatten.length = stop + after.flatten.length := by
        simp only [restEq, stop, List.flatten_cons, List.flatten_append, List.length_append]
        omega
      rw [length]
      refine (Text.LieApart.single ?_).append ih
      have := List.length_pos_iff.mpr filled
      omega
  | case3 offset line rest _ ih =>
      rw [List.flatten_cons, List.length_append, ← Nat.add_assoc]
      exact (keeps_onLine.takes.lieApart_hitSpans offset none line).append ih

theorem isOnLine_of_onLine {before : Option Char} {taken left : List Char} {value : Unit}
    (found : onLine before (taken ++ left) = some (taken.length, value)) : IsOnLine taken := by
  generalize whole : taken ++ left = text at found
  unfold onLine at found
  split at found
  next first rest =>
    split at found
    next body after split =>
      split at found
      next => simp at found
      next unbroken =>
        simp only [Option.some.injEq, Prod.mk.injEq, and_true] at found
        rw [Text.splitAtFirst?_eq_some split] at whole
        obtain ⟨rfl, _⟩ : taken = '$' :: '$' :: first :: body ++ ['$', '$'] ∧ left = after :=
          List.append_inj (by simp [whole]) (by simp [← found])
        refine ⟨first :: body, rfl, by simp, by simpa using unbroken, fun shorter filled starts => ?_⟩
        obtain ⟨head, tail, rfl⟩ := List.exists_cons_of_ne_nil filled
        rw [List.cons_append, List.cons_append, List.cons_prefix_cons] at starts
        obtain ⟨rfl, starts⟩ := starts
        rw [Text.splitAtFirst?_shortest split starts]
    next => simp at found
  next => simp at found

theorem isOnLine_of_mem_rowHits {lines : List (List Char)} {row : Nat} {line : List Char}
    {span : Span} (own : lines[row]? = some line) (member : span ∈ rowHits lines row line) :
    IsOnLine (span.slice lines.flatten) := by
  obtain ⟨previous, front, taken, left, value, rfl, found, rfl⟩ :=
    keeps_onLine.takes.exists_of_mem_hitSpans member
  obtain ⟨bound, get⟩ := List.getElem?_eq_some_iff.mp own
  have whole : lines = lines.take row ++ (front ++ (taken ++ left)) :: lines.drop (row + 1) := by
    rw [← get, ← List.drop_eq_getElem_cons bound, List.take_append_drop]
  have cut : lines.flatten =
      ((lines.take row).flatten ++ front) ++ (taken ++ (left ++ (lines.drop (row + 1)).flatten)) := by
    conv_lhs => rw [whole]
    simp
  rw [cut, Span.slice_append]
  exact isOnLine_of_onLine found

def reclassify (found : List Span) (offset : Nat) (painted : Char × RegionKind) : Char × RegionKind :=
  if painted.2 = .outside ∧ ∃ span ∈ found, span.start ≤ offset ∧ offset < span.stop then
    (painted.1, .display)
  else painted

theorem paint_markText (found : List Span) (offset : Nat) (text : List Char) :
    Piece.paint (markText found offset text) =
      (Painted.outside text).mapIdx fun place => reclassify found (offset + place) := by
  induction text generalizing offset with
  | nil => rfl
  | cons char text ih =>
      have tail := ih (offset + 1)
      simp only [Painted.outside, List.map_cons, List.mapIdx_cons, Nat.add_zero] at tail ⊢
      rw [markText, Piece.paint_cons, tail]
      simp only [reclassify, List.any_eq_true, Span.contains, Bool.and_eq_true, decide_eq_true_eq,
        true_and]
      split
      · simp [Region.display, Nat.add_assoc, Nat.add_comm 1]
      · simp [Region.outside, Nat.add_assoc, Nat.add_comm 1]

theorem mapIdx_reclassify_of_frozen (found : List Span) (offset : Nat) {region : Region}
    (frozen : region.isOutside = false) :
    (Piece.paint [region]).mapIdx (fun place => reclassify found (offset + place)) =
      Piece.paint [region] := by
  have other : region.kind ≠ .outside := by simpa [Piece.isOutside] using frozen
  refine List.ext_getElem? fun place => ?_
  rw [List.getElem?_mapIdx]
  cases item : (Piece.paint [region])[place]? with
  | none => rfl
  | some painted =>
      have kind : painted.2 = region.kind := by
        have inside : painted ∈ Piece.paint [region] := List.mem_of_getElem? item
        rw [Piece.paint_cons, Piece.paint_nil, List.append_nil] at inside
        obtain ⟨char, _, same⟩ := List.mem_map.mp inside
        rw [← same]
      rw [Option.map_some, reclassify, kind, if_neg fun both => other both.1]

theorem paint_markFrom (found : List Span) (offset : Nat) (regions : List Region) :
    Piece.paint (markFrom found offset regions) =
      (Piece.paint regions).mapIdx fun place => reclassify found (offset + place) := by
  induction regions generalizing offset with
  | nil => rfl
  | cons region regions ih =>
      rw [markFrom, Piece.paint_append, ih, Piece.paint_eq_append region regions, List.mapIdx_append]
      congr 1
      · cases free : region.isOutside with
        | true => rw [if_pos rfl, paint_markText, Painted.paint_of_isOutside free]
        | false => rw [if_neg (by simp), mapIdx_reclassify_of_frozen found offset free]
      · simp only [Nat.add_assoc, Nat.add_comm region.text.length, Piece.paint_cons, Piece.paint_nil,
          List.append_nil, List.length_map]

theorem paint_split (regions : List Region) :
    Piece.paint (split regions) =
      (Piece.paint regions).mapIdx (reclassify (spans (masked regions))) := by
  have marked := paint_markFrom (spans (masked regions)) 0 regions
  simp only [Nat.zero_add] at marked
  unfold split
  dsimp only
  split
  next empty =>
    have same (place : Nat) (painted : Char × RegionKind) :
        reclassify (spans (masked regions)) place painted = painted := by
      simp [reclassify, List.isEmpty_iff.mp empty]
    refine List.ext_getElem? fun place => ?_
    cases item : (Piece.paint regions)[place]? <;> simp [item, same]
  next => rw [Piece.paint_fuse, marked]

theorem length_masked_eq (regions : List Region) :
    (masked regions).length = (Piece.join regions).length := by
  induction regions with
  | nil => rfl
  | cons region regions ih =>
      rw [masked_cons, Piece.join_cons, List.length_append, List.length_append, length_masked, ih]

/-- The lines that hold two dollars alone pair up, and the spans of display math are the blocks of
lines from one to the other and what is between dollars on a line of no block. They lie apart. Of a
document the characters become display math that are outside and that a span covers of the text in
which the frozen characters are masked. -/
theorem spans_exact :
    (∀ text span, span ∈ spans text ↔
      (∃ rows ∈ blockRows 0 (Text.lines text), span = rowsSpan (Text.lines text) rows) ∨
        ∃ row line, (Text.lines text)[row]? = some line ∧
          (∀ rows ∈ blockRows 0 (Text.lines text), ¬(rows.1 ≤ row ∧ row ≤ rows.2)) ∧
          span ∈ rowHits (Text.lines text) row line) ∧
      (∀ text row line, (Text.lines text)[row]? = some line →
        ∀ span ∈ rowHits (Text.lines text) row line, IsOnLine (span.slice text)) ∧
      (∀ text, Text.LieApart 0 text.length (spans text)) ∧
      ∀ regions, (masked regions).length = (Piece.join regions).length ∧
        Piece.paint (split regions) =
          (Piece.paint regions).mapIdx (reclassify (spans (masked regions))) := by
  refine ⟨fun text span => ?_, fun text row line own span member => ?_, fun text => ?_,
    fun regions => ⟨length_masked_eq regions, paint_split regions⟩⟩
  · have whole := @mem_spansFrom_iff (Text.lines text) span 0 [] rfl
    simpa only [spans, List.length_nil, Nat.zero_le, true_and, List.nil_append] using whole
  · have onLine := isOnLine_of_mem_rowHits own member
    rwa [Text.flatten_lines] at onLine
  · have apart := lieApart_spansFrom 0 (Text.lines text)
    rwa [Nat.zero_add, Text.flatten_lines] at apart

end DollarMath.DisplayMath
