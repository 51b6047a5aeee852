import DollarMath.Proofs.Conversion.Passes
import DollarMath.Proofs.Region.HeldBack

/-!
The conversion of plain brackets as it reads on the whole document: the groups that are replaced are
those that meet conditions on the document alone, whatever the regions are that it is cut into and
whatever is replaced elsewhere.
-/

namespace DollarMath

theorem map_filterMap_sublist {α β γ : Type} {items : List α} {choose : α → Option β}
    {read : β → γ} {image : α → γ}
    (same : ∀ item ∈ items, ∀ found, choose item = some found → read found = image item) :
    ((items.filterMap choose).map read).Sublist (items.map image) := by
  induction items with
  | nil => exact .slnil
  | cons item items ih =>
      have rest := ih fun other member => same other (List.mem_cons_of_mem _ member)
      cases chosen : choose item with
      | none => simpa [chosen] using rest.cons _
      | some found => simpa [chosen, same item (by simp) found chosen] using rest

theorem Text.ordered_groups {opening closing : Char} (text : List Char) :
    Span.AreOrdered text.length
      ((groups opening closing text).map fun group => ⟨group.1, group.2 + 1⟩) := by
  obtain ⟨bounds, apart⟩ := apart_groupsFrom opening closing 0 text
  refine ⟨fun span member => ?_, List.pairwise_map.mpr apart⟩
  obtain ⟨group, inGroups, rfl⟩ := List.mem_map.mp member
  have own := bounds group inGroups
  dsimp only
  omega

structure Edit.IsAt (pre text post : List Char) (edit : Edit) (place : Place) : Prop where
  replacement : edit.replacement = [Region.dollars place.body]
  before : place.before = pre ++ text.take edit.span.start
  taken : place.text = edit.span.slice text
  after : place.after = text.drop edit.span.stop ++ post

theorem Edit.isAt_iff {pre front taken body back post : List Char} {place : Place} :
    Edit.IsAt pre (front ++ taken ++ back) post
        ⟨⟨front.length, front.length + taken.length⟩, [Region.dollars body]⟩ place ↔
      place = ⟨pre ++ front, taken, body, back ++ post⟩ := by
  have slice : Span.slice ⟨front.length, front.length + taken.length⟩ (front ++ taken ++ back) =
      taken := by
    rw [List.append_assoc, Span.slice_append]
  have left : (front ++ taken ++ back).take front.length = front := by
    rw [List.append_assoc, List.take_left]
  have right : (front ++ taken ++ back).drop (front.length + taken.length) = back := by
    rw [← List.length_append, List.drop_left]
  constructor
  · intro here
    obtain ⟨_, _, _, _⟩ := place
    obtain ⟨made, rfl, rfl, rfl⟩ := here
    have bodyEq := made.symm
    simp only [Region.dollars, List.cons.injEq, Piece.mk.injEq, List.append_cancel_right_eq,
      true_and, and_true] at bodyEq
    subst bodyEq
    dsimp only
    rw [slice, left, right]
  · rintro rfl
    exact ⟨rfl, congrArg _ left.symm, slice.symm, congrArg (· ++ post) right.symm⟩

/-- Edits that do not overlap are all made. -/
theorem Part.exists_of_cut {text : List Char} {edits : List Edit} {offset : Nat}
    (pre post : List Char) (ordered : Span.AreOrdered text.length (edits.map Edit.span))
    (starts : ∀ edit ∈ edits, offset ≤ edit.span.start)
    (wraps : ∀ edit ∈ edits, ∃ body, edit.replacement = [Region.dollars body]) :
    ∃ parts, Part.sources parts = Painted.outside (text.drop offset) ∧
      Part.results parts = Piece.paint (Edit.cut text offset edits) ∧
      ∀ place, place ∈ Part.places (pre ++ text.take offset) parts post ↔
        ∃ edit ∈ edits, edit.IsAt pre text post place := by
  induction edits generalizing offset with
  | nil =>
      refine ⟨keep (Painted.outside (text.drop offset)), sources_keep _, ?_, by simp⟩
      rw [results_keep, Edit.cut, Painted.paint_outside]
  | cons edit edits ih =>
      have start := starts edit (by simp)
      have bounds := ordered.inside edit.span (by simp)
      have next := (List.pairwise_cons.mp ordered.apart).1
      obtain ⟨body, made⟩ := wraps edit (by simp)
      obtain ⟨parts, sourcesEq, resultsEq, placed⟩ := @ih edit.span.stop
        ⟨fun span member => ordered.inside span (List.mem_cons_of_mem _ member),
          (List.pairwise_cons.mp ordered.apart).2⟩
        (fun other member => next other.span (List.mem_map_of_mem member))
        (fun other member => wraps other (List.mem_cons_of_mem _ member))
      have gap := Span.take_eq_append text start
      have taken := Span.take_eq_append text (Nat.le_of_lt bounds.1)
      have whole := Span.drop_eq_append text start (Nat.le_of_lt bounds.1)
      refine ⟨keep (Painted.outside (Span.slice ⟨offset, edit.span.start⟩ text)) ++
        wrapped (edit.span.slice text) body :: parts, ?_, ?_, fun place => ?_⟩
      · rw [sources_append, sources_keep, sources_cons, sourcesEq, source, whole,
          Painted.outside_append, Painted.outside_append]
      · rw [results_append, results_keep, results_cons, resultsEq, result, Edit.cut,
          if_neg (by omega), made, Piece.paint_eq_append (Region.outside _), Painted.paint_outside,
          Piece.paint_append]
      · rw [places_append, places_keep, sources_keep, Painted.text_outside, List.append_assoc,
          ← gap, List.nil_append, places, List.mem_cons, List.append_assoc, ← taken, placed,
          sourcesEq, Painted.text_outside, List.exists_mem_cons_iff]
        refine or_congr_left ⟨?_, fun here => ?_⟩
        · rintro rfl
          exact ⟨made, rfl, rfl, rfl⟩
        · obtain ⟨_, _, _, _⟩ := place
          obtain ⟨madeHere, rfl, rfl, rfl⟩ := here
          rw [made] at madeHere
          simpa [Region.dollars] using madeHere.symm

namespace PlainBrackets

/-- A pair of brackets of a text outside that its style takes for mathematics, given the document
before and after the text and which characters of the document are held back. -/
inductive IsRead (style : Style) (isHeld : List Char → Bool) (pre text post : List Char) :
    Place → Prop
  | intro {front inside back} :
      text = front ++ (style.opening :: inside ++ [style.closing]) ++ back →
      (front.length, front.length + 1 + inside.length) ∈
        Text.groups style.opening style.closing text →
      Text.strip inside ≠ [] → '\n' ∉ inside → '$' ∉ inside →
      isHeld (pre ++ front) = false →
      style.accepts
        { before := (pre ++ front).rtake 60
          inside := inside
          inner := Text.strip inside
          after := (back ++ post).take 60 } = true →
      IsRead style isHeld pre text post
        ⟨pre ++ front, style.opening :: inside ++ [style.closing], Text.strip inside, back ++ post⟩

theorem isAt_edit?_iff {style : Style} {isHeld : List Char → Bool} {pre text post : List Char}
    {held : List Span} (holds : ∀ front char back, text = front ++ char :: back →
      held.any (·.contains front.length) = isHeld (pre ++ front)) {place : Place} :
    (∃ edit ∈ (Text.groups style.opening style.closing text).filterMap
        (edit? style (pre ++ (text ++ post)) pre.length held text),
      edit.IsAt pre text post place) ↔ IsRead style isHeld pre text post place := by
  have span (front inside : List Char) : front.length + 1 + inside.length + 1 =
      front.length + (style.opening :: inside ++ [style.closing]).length := by
    simp only [List.length_append, List.length_cons, List.length_nil]
    omega
  have whole {front inside back : List Char}
      (textEq : text = front ++ (style.opening :: inside ++ [style.closing]) ++ back) :
      pre ++ (text ++ post) =
        (pre ++ front) ++ (style.opening :: inside ++ [style.closing]) ++ (back ++ post) := by
    simp [textEq]
  constructor
  · rintro ⟨edit, member, here⟩
    obtain ⟨group, inGroups, edited⟩ := List.mem_filterMap.mp member
    obtain ⟨front, inside, back, textEq, rfl, _⟩ := groups_split inGroups
    obtain ⟨filled, onLine, noDollar, free, accepted, rfl⟩ := (edit?_eq_some textEq).mp edited
    rw [span, textEq, Edit.isAt_iff] at here
    rw [holds front style.opening (inside ++ [style.closing] ++ back) (by simp [textEq])] at free
    rw [whole textEq, ← List.length_append, candidate_eq] at accepted
    subst here
    exact .intro textEq inGroups filled onLine noDollar free accepted
  · rintro ⟨textEq, inGroups, filled, onLine, noDollar, free, accepted⟩
    rename_i front inside back
    rw [← holds front style.opening (inside ++ [style.closing] ++ back) (by simp [textEq])] at free
    rw [← candidate_eq, ← whole textEq, List.length_append] at accepted
    refine ⟨_, List.mem_filterMap.mpr ⟨_, inGroups, (edit?_eq_some textEq).mpr
      ⟨filled, onLine, noDollar, free, accepted, rfl⟩⟩, ?_⟩
    rw [span, textEq, Edit.isAt_iff]

theorem exists_parts_convertText {style : Style} {isHeld : List Char → Bool}
    {pre text post : List Char} {held : List Span}
    (holds : ∀ front char back, text = front ++ char :: back →
      held.any (·.contains front.length) = isHeld (pre ++ front)) :
    ∃ parts, Part.sources parts = Painted.outside text ∧
      Part.results parts =
        Piece.paint (convertText style (pre ++ (text ++ post)) pre.length held text) ∧
      ∀ place, place ∈ Part.places pre parts post ↔ IsRead style isHeld pre text post place := by
  have made {group : Nat × Nat} {edit : Edit}
      (inGroups : group ∈ Text.groups style.opening style.closing text)
      (edited : edit? style (pre ++ (text ++ post)) pre.length held text group = some edit) :
      edit.span = ⟨group.1, group.2 + 1⟩ ∧ ∃ body, edit.replacement = [Region.dollars body] := by
    obtain ⟨front, inside, back, textEq, rfl, _⟩ := groups_split inGroups
    obtain ⟨_, _, _, _, _, rfl⟩ := (edit?_eq_some textEq).mp edited
    exact ⟨rfl, _, rfl⟩
  have ordered := (Text.ordered_groups text).sublist
    (map_filterMap_sublist fun group inGroups edit edited => (made inGroups edited).1)
  obtain ⟨parts, sourcesEq, resultsEq, placed⟩ := @Part.exists_of_cut text _ 0 pre post ordered
    (by simp) fun edit member => by
      obtain ⟨group, inGroups, edited⟩ := List.mem_filterMap.mp member
      exact (made inGroups edited).2
  refine ⟨parts, sourcesEq, resultsEq, fun place => ?_⟩
  rw [← isAt_edit?_iff holds, ← placed, List.take_zero, List.append_nil]

theorem exists_parts_convertFrom (style : Style) {isHeld : List Char → Bool} {pre : List Char}
    {regions : List Region} {held : List (List Span)} (holds : HoldsBack isHeld pre regions held) :
    ∃ parts, Part.sources parts = Piece.paint regions ∧
      Part.results parts =
        Piece.paint (convertFrom style (pre ++ Piece.join regions) pre.length regions held) ∧
      ∀ place, place ∈ Part.places pre parts [] ↔
        ∃ region above below, regions = above ++ region :: below ∧ region.isOutside = true ∧
          IsRead style isHeld (pre ++ Piece.join above) region.text (Piece.join below) place := by
  induction regions generalizing pre held with
  | nil => exact ⟨[], rfl, rfl, by simp [Part.places]⟩
  | cons region regions ih =>
      obtain ⟨ownHolds, restHolds⟩ := holds
      obtain ⟨rest, restSources, restResults, restPlaces⟩ := ih restHolds
      obtain ⟨own, ownSources, ownResults, ownPlaces⟩ : ∃ own,
          Part.sources own = Piece.paint [region] ∧
          Part.results own = Piece.paint (if region.isOutside then
            convertText style (pre ++ Piece.join (region :: regions)) pre.length (held.headD [])
              region.text else [region]) ∧
          ∀ place, place ∈ Part.places pre own (Piece.join regions) ↔
            region.isOutside = true ∧
              IsRead style isHeld pre region.text (Piece.join regions) place := by
        split
        next free =>
          rw [Painted.paint_of_isOutside free, Piece.join_cons]
          simpa [free] using exists_parts_convertText (ownHolds free)
        next frozen => exact ⟨Part.keep (Piece.paint [region]), by simp, by simp, by simp [frozen]⟩
      refine ⟨own ++ rest, ?_, ?_, fun place => ?_⟩
      · rw [Part.sources_append, ownSources, restSources, ← Piece.paint_eq_append]
      · rw [List.length_append, List.append_assoc, ← Piece.join_cons] at restResults
        rw [Part.results_append, ownResults, restResults, convertFrom, Piece.paint_append]
      · rw [Part.places_append, List.mem_append, ownSources, restSources, Painted.text_paint,
          Painted.text_paint, Piece.join_cons, Piece.join_nil, List.append_nil, List.append_nil,
          ownPlaces, restPlaces]
        simp only [exists_split_cons_iff, exists_or, exists_eq_left, Piece.join_nil,
          Piece.join_cons, List.append_nil, List.append_assoc]

/-- The conversion of plain brackets is the document with the groups that read as mathematics
replaced, all at once. -/
theorem convert_reads (style : Style) (regions : List Region) :
    ∃ parts, Part.sources parts = Piece.paint regions ∧
      Part.results parts = Piece.paint (convert style regions) ∧
      ∀ place, place ∈ Part.places [] parts [] ↔
        ∃ region above below, regions = above ++ region :: below ∧ region.isOutside = true ∧
          IsRead style (isOnStrayLine regions) (Piece.join above) region.text (Piece.join below)
            place := by
  rw [convert, Piece.paint_fuse]
  exact exists_parts_convertFrom style (holdsBack_strayDollars regions)

end PlainBrackets

end DollarMath
