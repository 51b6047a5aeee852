import DollarMath.Proofs.Region.Revised

/-!
The ways in which stages work through a document, each as a revision: substitution of what a
recogniser finds, with spans held back or without, and edits that cut a text.
-/

namespace DollarMath

variable {replaces : Replacement} {before after : Option Char}

/-- Whatever the recogniser takes and the builder makes of it is a replacement. -/
def Substitutes {α : Type} (recognize : Text.Recognizer α) (build : Build α)
    (replaces : Replacement) : Prop :=
  ∀ previous text size value, recognize previous text = some (size, value) →
    ∃ taken left, text = taken ++ left ∧ size = taken.length ∧ taken ≠ [] ∧
      ∀ before after regions, (previous = none ∨ previous = before) →
        build before taken value (Text.headOr left after) = some regions →
        replaces before taken regions (Text.headOr left after)

def SubstitutesBetween {α : Type} (before after : Option Char) (recognize : Text.Recognizer α)
    (build : Build α) (replaces : Replacement) : Prop :=
  ∀ previous text size value, recognize previous text = some (size, value) →
    ∃ taken left, text = taken ++ left ∧ size = taken.length ∧ taken ≠ [] ∧
      ∀ regions, build (previous.or before) taken value (Text.headOr left after) = some regions →
        replaces (previous.or before) taken regions (Text.headOr left after)

theorem SubstitutesBetween.revised {α : Type} {recognize : Text.Recognizer α} {build : Build α}
    (substitutes : SubstitutesBetween before after recognize build replaces) (text : List Char) :
    Revised replaces after before (Painted.outside text)
      (Piece.paint (substitution recognize build before text after)) := by
  unfold substitution
  suffices all : ∀ previous, Revised replaces after (previous.or before) (Painted.outside text)
      (Piece.paint ((Text.scan recognize previous text).flatMap _)) from all none
  intro previous
  fun_induction Text.scan recognize previous text with
  | case1 => exact .nil
  | case2 previous char rest _ ih => exact .keep ih
  | case3 previous char rest size value found taken left ih =>
      obtain ⟨known, others, whole, sizeEq, nonempty, supported⟩ :=
        substitutes previous (char :: rest) size value found
      obtain ⟨first, known, rfl⟩ := List.exists_cons_of_ne_nil nonempty
      simp only [List.cons_append, List.cons.injEq] at whole
      obtain ⟨rfl, rfl⟩ := whole
      have takenEq : taken = char :: known := by simp [taken, sizeEq]
      have leftEq : left = others := by simp [left, sizeEq]
      clear_value taken left
      subst takenEq leftEq
      have lastEq : (char :: known).getLast?.or before =
          Text.lastOr (previous.or before) (char :: known) := by
        rw [Text.getLast?_or]
        rfl
      rw [lastEq] at ih
      have wholeEq : Painted.outside (char :: (known ++ left)) =
          Painted.outside (char :: known) ++ Painted.outside left := by simp
      rw [wholeEq, List.flatMap_cons, Piece.paint_append]
      dsimp only
      rw [Text.head?_or]
      refine Revised.append ?_ (by simpa using ih)
      rw [Painted.text_outside]
      cases built : build (previous.or before) (char :: known) value (Text.headOr left after) with
      | none =>
          rw [Option.getD_none, Painted.paint_outside]
          exact .refl _ _
      | some regions => exact .single (by simp) (supported regions built)

theorem Substitutes.between {α : Type} {recognize : Text.Recognizer α} {build : Build α}
    (substitutes : Substitutes recognize build replaces) (before after : Option Char) :
    SubstitutesBetween before after recognize build replaces := by
  intro previous text size value found
  obtain ⟨taken, left, whole, sizeEq, filled, supported⟩ :=
    substitutes previous text size value found
  refine ⟨taken, left, whole, sizeEq, filled, fun regions built => ?_⟩
  refine supported _ after regions ?_ built
  cases previous <;> simp

theorem Substitutes.revised {α : Type} {recognize : Text.Recognizer α} {build : Build α}
    (substitutes : Substitutes recognize build replaces) (before : Option Char)
    (text : List Char) (after : Option Char) :
    Revised replaces after before (Painted.outside text)
      (Piece.paint (substitution recognize build before text after)) :=
  (substitutes.between before after).revised text

theorem Substitutes.strengthen {α : Type} {recognize : Text.Recognizer α} {build : Build α}
    {replaces stronger : Replacement} (substitutes : Substitutes recognize build replaces)
    (strong : ∀ previous text size value before after regions,
      recognize previous text = some (size, value) →
      build before (text.take size) value after = some regions →
      replaces before (text.take size) regions after →
      stronger before (text.take size) regions after) :
    Substitutes recognize build stronger := by
  intro previous text size value found
  obtain ⟨taken, left, rfl, rfl, filled, supported⟩ := substitutes previous text size value found
  refine ⟨taken, left, rfl, rfl, filled, ?_⟩
  intro before after regions known built
  have both := strong previous (taken ++ left) taken.length value before
    (Text.headOr left after) regions found
  rw [List.take_left] at both
  exact both built (supported before after regions known built)

structure Span.AreOrdered (length : Nat) (spans : List Span) : Prop where
  inside : ∀ span ∈ spans, span.start < span.stop ∧ span.stop ≤ length
  apart : spans.Pairwise fun first second => first.stop ≤ second.start

theorem Span.AreOrdered.cons {length : Nat} {span : Span} {spans : List Span}
    (inside : span.start < span.stop ∧ span.stop ≤ length)
    (later : ∀ other ∈ spans, span.stop ≤ other.start) (ordered : AreOrdered length spans) :
    AreOrdered length (span :: spans) := by
  refine ⟨fun other member => ?_, List.pairwise_cons.mpr ⟨later, ordered.apart⟩⟩
  rcases List.mem_cons.mp member with rfl | others
  · exact inside
  · exact ordered.inside other others

def Revision.Follows (revise : Revision) (replaces : Replacement) : Prop :=
  ∀ before text after, Revised replaces after before (Painted.outside text)
    (Piece.paint (revise before text after))

theorem exists_reviseAround (revise : Revision) (after before : Option Char) {offset : Nat}
    {text : List Char} {span : Span} {spans : List Span}
    (ordered : Span.AreOrdered (offset + text.length) (span :: spans))
    (start : offset ≤ span.start) :
    ∃ free held left, text = free ++ (held ++ left) ∧ free.length = span.start - offset ∧
      held.length = span.stop - span.start ∧
      reviseAround revise after before offset text (span :: spans) =
        (if free.isEmpty then [] else revise before free (Text.headOr (held ++ left) after)) ++
          Region.outside held ::
            reviseAround revise after (Text.lastOr (Text.lastOr before free) held) span.stop left
              spans ∧
      Span.AreOrdered (span.stop + left.length) spans ∧ ∀ other ∈ spans, span.stop ≤ other.start := by
  have bounds := ordered.inside span (by simp)
  have next := (List.pairwise_cons.mp ordered.apart).1
  obtain ⟨free, rest, textEq, freeLength⟩ : ∃ free rest, text = free ++ rest ∧
      free.length = span.start - offset := by
    refine ⟨text.take (span.start - offset), text.drop (span.start - offset), by simp, ?_⟩
    rw [List.length_take]
    omega
  obtain ⟨held, left, restEq, heldLength⟩ : ∃ held left, rest = held ++ left ∧
      held.length = span.stop - span.start := by
    refine ⟨rest.take (span.stop - span.start), rest.drop (span.stop - span.start), by simp, ?_⟩
    have length := congrArg List.length textEq
    rw [List.length_append] at length
    rw [List.length_take]
    omega
  subst textEq restEq
  have heldFilled : held ≠ [] := by
    intro empty
    rw [empty, List.length_nil] at heldLength
    omega
  have lastEq : held.getLast?.or (free.getLast?.or before) =
      Text.lastOr (Text.lastOr before free) held := by
    rw [Text.getLast?_or, Text.getLast?_or]
  have headEq : (held ++ left).head? = Text.headOr (held ++ left) after := by
    rw [Text.headOr_of_ne_nil (by simp [heldFilled])]
  have total : span.stop + left.length = offset + (free ++ (held ++ left)).length := by
    simp only [List.length_append]
    omega
  refine ⟨free, held, left, rfl, freeLength, heldLength, ?_,
    ⟨fun other member => ?_, (List.pairwise_cons.mp ordered.apart).2⟩, next⟩
  · rw [reviseAround]
    simp only [← freeLength, ← heldLength, List.take_left', List.drop_left', lastEq, headEq]
  · rw [total]
    exact ordered.inside other (by simp [member])

theorem revised_reviseAround {revise : Revision} (follows : revise.Follows replaces)
    {spans : List Span} {offset : Nat} {text : List Char}
    (ordered : Span.AreOrdered (offset + text.length) spans)
    (later : ∀ span ∈ spans, offset ≤ span.start) :
    Revised replaces after before (Painted.outside text)
      (Piece.paint (reviseAround revise after before offset text spans)) := by
  induction spans generalizing before offset text with
  | nil =>
      unfold reviseAround
      split
      next empty =>
        rw [List.isEmpty_iff.mp empty]
        exact .nil
      next => exact follows before text after
  | cons span spans ih =>
      obtain ⟨free, held, left, rfl, _, _, revised, orderedRest, next⟩ :=
        exists_reviseAround revise after before ordered (later span (by simp))
      rw [revised, Painted.outside_append, Piece.paint_append]
      refine .append ?_ ?_
      · rw [Painted.text_outside]
        split
        next empty =>
          rw [List.isEmpty_iff.mp empty]
          exact .nil
        next => exact follows before free _
      · rw [Painted.outside_append, Piece.paint_cons]
        refine .append (.refl _ _) ?_
        simp only [Painted.text_outside]
        exact ih orderedRest next

theorem Piece.isOutside_iff {region : Region} :
    region.isOutside = true ↔ region.kind = .outside := by
  simp [Piece.isOutside]

theorem Painted.paint_of_isOutside {region : Region} (free : region.isOutside = true) :
    Piece.paint [region] = Painted.outside region.text := by
  rw [Piece.isOutside_iff] at free
  simp [Painted.outside, free]

theorem firstOf_or {regions : List Region} (nonempty : ∀ region ∈ regions, region.text ≠ [])
    (after : Option Char) :
    (firstOf regions).or after = Text.headOr (Piece.join regions) after := by
  cases regions with
  | nil => rfl
  | cons region regions =>
      obtain ⟨char, rest, textEq⟩ := List.exists_cons_of_ne_nil (nonempty region (by simp))
      simp [firstOf, textEq]

def reviseUpTo (revise : Revision) (skip : Region → Bool) (after : Option Char) :
    (before : Option Char) → List Region → List (List Span) → List Region
  | _, [], _ => []
  | before, region :: regions, held =>
    (if region.isOutside && !skip region then
      reviseAround revise ((firstOf regions).or after) before 0 region.text (held.headD [])
    else [region]) ++ reviseUpTo revise skip after region.text.getLast? regions held.tail

theorem reviseUpTo_none (revise : Revision) (skip : Region → Bool) (before : Option Char)
    (regions : List Region) (held : List (List Span)) :
    reviseUpTo revise skip none before regions held =
      reviseOutsideAfter revise skip before regions held := by
  induction regions generalizing before held with
  | nil => rfl
  | cons region regions ih => rw [reviseUpTo, reviseOutsideAfter, Option.or_none, ih]

theorem reviseOutsideAfter_append {revise : Revision} {skip : Region → Bool} {front : List Region}
    (nonempty : ∀ region ∈ front, region.text ≠ []) (before : Option Char) (back : List Region)
    (held : List (List Span)) :
    reviseOutsideAfter revise skip before (front ++ back) held =
      reviseUpTo revise skip (firstOf back) before front held ++
        reviseOutsideAfter revise skip (Text.lastOr before (Piece.join front)) back
          (held.drop front.length) := by
  induction front generalizing before held with
  | nil => rfl
  | cons region front ih =>
      have others : ∀ other ∈ front, other.text ≠ [] :=
        fun other member => nonempty other (by simp [member])
      have next : firstOf (front ++ back) = (firstOf front).or (firstOf back) := by
        cases front with
        | nil => rfl
        | cons other front =>
            obtain ⟨char, rest, textEq⟩ := List.exists_cons_of_ne_nil (others other (by simp))
            simp [firstOf, textEq]
      rw [List.cons_append, reviseOutsideAfter, reviseUpTo, next, ih others, Piece.join_cons,
        Text.lastOr_append, Text.lastOr_of_ne_nil (nonempty region (by simp)), List.length_cons,
        ← List.drop_one, List.drop_drop, List.append_assoc, Nat.add_comm 1]

theorem revised_reviseUpTo {revise : Revision} (follows : revise.Follows replaces)
    {skip : Region → Bool} {regions : List Region} {held : List (List Span)}
    (nonempty : ∀ region ∈ regions, region.text ≠ [])
    (ordered : ∀ pair ∈ regions.zip held, Span.AreOrdered pair.1.text.length pair.2) :
    Revised replaces after before (Piece.paint regions)
      (Piece.paint (reviseUpTo revise skip after before regions held)) := by
  induction regions generalizing held before with
  | nil => exact .nil
  | cons region regions ih =>
      have others : ∀ other ∈ regions, other.text ≠ [] :=
        fun other member => nonempty other (by simp [member])
      have heldOthers :
          ∀ pair ∈ regions.zip held.tail, Span.AreOrdered pair.1.text.length pair.2 := by
        cases held with
        | nil => simp
        | cons spans held => exact fun pair member => ordered pair (List.mem_cons_of_mem _ member)
      have heldOwn : Span.AreOrdered (0 + region.text.length) (held.headD []) := by
        cases held with
        | nil => exact ⟨by simp, by simp⟩
        | cons spans held => simpa using ordered (region, spans) (by simp)
      have own := nonempty region (by simp)
      have rest := @ih region.text.getLast? held.tail others heldOthers
      rw [reviseUpTo, Piece.paint_append, Piece.paint_eq_append region regions]
      refine .append ?_ (by simpa [Text.lastOr_of_ne_nil own before] using rest)
      split
      next revisable =>
        have free : region.isOutside = true := by
          simp only [Bool.and_eq_true] at revisable
          exact revisable.1
        rw [Painted.paint_of_isOutside free, Painted.text_paint, ← firstOf_or others]
        exact revised_reviseAround follows heldOwn (by simp)
      next => exact .refl _ _

theorem isFused_reviseOutside (revise : Revision) (regions : List Region)
    (skip : Region → Bool := fun _ => false) (held : List (List Span) := []) :
    Piece.IsFused (reviseOutside revise regions skip held) :=
  Piece.isFused_fuse _

theorem revised_reviseOutside {revise : Revision} (follows : revise.Follows replaces)
    {skip : Region → Bool} {regions : List Region} {held : List (List Span)}
    (nonempty : ∀ region ∈ regions, region.text ≠ [])
    (ordered : ∀ pair ∈ regions.zip held, Span.AreOrdered pair.1.text.length pair.2) :
    Revised replaces none none (Piece.paint regions)
      (Piece.paint (reviseOutside revise regions skip held)) := by
  rw [reviseOutside, Piece.paint_fuse, ← reviseUpTo_none]
  exact revised_reviseUpTo follows nonempty ordered

section Marking

variable {relates : Char × RegionKind → Char × RegionKind → Prop}

theorem Painted.forall₂_of_text {text : List Char} {new : Painted} (textEq : new.text = text)
    (own : ∀ stroke ∈ new, relates (stroke.1, .outside) stroke) :
    List.Forall₂ relates (outside text) new := by
  subst textEq
  rw [outside, Painted.text, List.map_map, List.forall₂_map_left_iff]
  exact List.forall₂_same.mpr own

/-- A pass that keeps every character in its place may be looked at region by region, empty regions
and neighbours of one kind included. -/
theorem forall₂_reviseOutside (refl : ∀ stroke, relates stroke stroke) {revise : Revision}
    (own : ∀ before text after,
      List.Forall₂ relates (Painted.outside text) (Piece.paint (revise before text after)))
    (regions : List Region) :
    List.Forall₂ relates (Piece.paint regions) (Piece.paint (reviseOutside revise regions)) := by
  rw [reviseOutside, Piece.paint_fuse]
  generalize (none : Option Char) = before
  induction regions generalizing before with
  | nil => exact .nil
  | cons region regions ih =>
      rw [reviseOutsideAfter, Piece.paint_append, Piece.paint_eq_append region regions]
      refine List.rel_append ?_ (ih _)
      split
      next revisable =>
        have free : region.isOutside = true := by simpa using revisable
        rw [Painted.paint_of_isOutside free, List.headD_nil, reviseAround]
        split
        next empty =>
          rw [List.isEmpty_iff.mp empty]
          exact .nil
        next => exact own _ _ _
      next => exact List.forall₂_same.mpr fun stroke _ => refl stroke

end Marking

namespace Span

theorem take_eq_append (text : List Char) {start stop : Nat} (order : start ≤ stop) :
    text.take stop = text.take start ++ slice ⟨start, stop⟩ text := by
  have cut := List.take_append_drop start (text.take stop)
  rw [List.take_take, Nat.min_eq_left order] at cut
  exact cut.symm

theorem drop_eq_slice_append (text : List Char) {start stop : Nat} (order : start ≤ stop) :
    text.drop start = slice ⟨start, stop⟩ text ++ text.drop stop := by
  have parts : text.take start ++ text.drop start = text.take stop ++ text.drop stop := by simp
  rw [take_eq_append text order, List.append_assoc] at parts
  exact List.append_cancel_left parts

theorem drop_eq_append (text : List Char) {offset start stop : Nat} (first : offset ≤ start)
    (second : start ≤ stop) : text.drop offset =
      slice ⟨offset, start⟩ text ++ (slice ⟨start, stop⟩ text ++ text.drop stop) := by
  rw [drop_eq_slice_append text first, drop_eq_slice_append text second]

theorem slice_eq_append (text : List Char) {start middle stop : Nat} (first : start ≤ middle)
    (second : middle ≤ stop) :
    slice ⟨start, stop⟩ text = slice ⟨start, middle⟩ text ++ slice ⟨middle, stop⟩ text := by
  have whole := drop_eq_slice_append (text.take stop) first
  rwa [slice, List.take_take, Nat.min_eq_left second] at whole

end Span

structure Edit.Fits (replaces : Replacement) (before after : Option Char) (text : List Char)
    (edit : Edit) : Prop where
  inside : edit.span.start < edit.span.stop ∧ edit.span.stop ≤ text.length
  replaced : replaces (Text.lastOr before (text.take edit.span.start)) (edit.span.slice text)
    edit.replacement (Text.headOr (text.drop edit.span.stop) after)

theorem revised_cut {text : List Char} {edits : List Edit} {offset : Nat}
    (fits : ∀ edit ∈ edits, edit.Fits replaces before after text) :
    Revised replaces after (Text.lastOr before (text.take offset))
      (Painted.outside (text.drop offset)) (Piece.paint (Edit.cut text offset edits)) := by
  induction edits generalizing offset with
  | nil =>
      rw [Edit.cut, Painted.paint_outside]
      exact .refl _ _
  | cons edit edits ih =>
      have others : ∀ other ∈ edits, other.Fits replaces before after text :=
        fun other member => fits other (by simp [member])
      rw [Edit.cut]
      split
      next => exact ih others
      next late =>
        obtain ⟨⟨filled, bound⟩, replaced⟩ := fits edit (by simp)
        have order := Nat.le_of_lt filled
        have gap := Span.take_eq_append text (Nat.le_of_not_lt late)
        have taken := Span.take_eq_append text order
        have whole := Span.drop_eq_append text (Nat.le_of_not_lt late) order
        have sliceFilled : edit.span.slice text ≠ [] := by
          intro empty
          have length := congrArg List.length empty
          rw [Span.slice, List.length_drop, List.length_take] at length
          simp only [List.length_nil] at length
          omega
        have rest := @ih edit.span.stop others
        rw [taken, gap] at rest
        rw [gap] at replaced
        rw [whole, Piece.paint_cons, Painted.outside_append, Painted.outside_append,
          Piece.paint_append]
        refine .append (.refl _ _) (.append (.single sliceFilled ?_) ?_)
        · simpa using replaced
        · simpa using rest

theorem revised_splice {text : List Char} {edits : List Edit}
    (fits : ∀ edit ∈ edits, edit.Fits replaces before after text) :
    Revised replaces after before (Painted.outside text)
      (Piece.paint (Edit.splice text edits)) := by
  have cut : Revised replaces after (Text.lastOr before (text.take 0))
      (Painted.outside (text.drop 0)) (Piece.paint (Edit.cut text 0 (Edit.sorted edits))) :=
    revised_cut fun edit member => fits edit (List.mem_mergeSort.mp member)
  simpa [Edit.splice] using cut

theorem EditTable.find?_ofList {edits : List (Nat × Edit)} {index : Nat} {own : List Edit}
    (found : (EditTable.ofList edits).find? index = some own) :
    (∃ edit, (index, edit) ∈ edits) ∧ ∀ edit ∈ own, (index, edit) ∈ edits := by
  obtain ⟨⟨place, kept⟩, entry, rfl⟩ := Option.map_eq_some_iff.mp found
  have placeEq : place = index := by simpa using List.find?_some entry
  have inTable := List.mem_of_find?_eq_some entry
  simp only [EditTable.ofList, List.mem_reverse, List.mem_map, List.mem_eraseDups,
    Prod.mk.injEq] at inTable
  obtain ⟨_, ⟨⟨_, edit⟩, present, rfl⟩, rfl, rfl⟩ := inTable
  subst placeEq
  refine ⟨⟨edit, present⟩, fun own member => ?_⟩
  simp only [List.mem_map, List.mem_filter, beq_iff_eq] at member
  obtain ⟨⟨_, _⟩, ⟨inEdits, rfl⟩, rfl⟩ := member
  exact inEdits

theorem EditTable.find?_ofList_of_mem {edits : List (Nat × Edit)} {index : Nat} {edit : Edit}
    (member : (index, edit) ∈ edits) :
    (EditTable.ofList edits).find? index =
      some ((edits.filter (·.1 == index)).map Prod.snd) := by
  have entry : (index, (edits.filter (·.1 == index)).map Prod.snd) ∈
      (EditTable.ofList edits).reverse := by
    simp only [EditTable.ofList, List.mem_reverse, List.mem_map, List.mem_eraseDups]
    exact ⟨index, ⟨(index, edit), member, rfl⟩, rfl⟩
  unfold EditTable.find?
  cases found : (EditTable.ofList edits).reverse.find? (·.1 == index) with
  | none => simpa using List.find?_eq_none.mp found _ entry
  | some pair =>
      have placeEq : pair.1 = index := by simpa using List.find?_some found
      have inTable := List.mem_of_find?_eq_some found
      simp only [EditTable.ofList, List.mem_reverse, List.mem_map] at inTable
      obtain ⟨place, _, rfl⟩ := inTable
      subst placeEq
      rfl

theorem EditTable.find?_ofList_eq (edits : List (Nat × Edit)) (index : Nat) :
    (EditTable.ofList edits).find? index =
      let own := (edits.filter (·.1 == index)).map Prod.snd
      if own = [] then none else some own := by
  dsimp only
  split
  next empty =>
    cases found : (EditTable.ofList edits).find? index with
    | none => rfl
    | some own =>
        obtain ⟨⟨edit, member⟩, -⟩ := EditTable.find?_ofList found
        rw [List.map_eq_nil_iff, List.filter_eq_nil_iff] at empty
        exact absurd (beq_self_eq_true index) (empty _ member)
  next filled =>
    obtain ⟨edit, member⟩ := List.exists_mem_of_ne_nil _ filled
    obtain ⟨⟨place, edit⟩, inEdits, rfl⟩ := List.mem_map.mp member
    obtain ⟨inEdits, placeEq⟩ := List.mem_filter.mp inEdits
    have placeEq : place = index := by simpa using placeEq
    exact EditTable.find?_ofList_of_mem (placeEq ▸ inEdits)

theorem applyFrom_append (table : EditTable) (index : Nat) (front back : List Region) :
    EditTable.applyFrom table index (front ++ back) =
      EditTable.applyFrom table index front ++
        EditTable.applyFrom table (index + front.length) back := by
  induction front generalizing index with
  | nil => rfl
  | cons region front ih =>
      rw [List.cons_append, EditTable.applyFrom, EditTable.applyFrom, ih, List.length_cons,
        List.append_assoc, Nat.add_assoc, Nat.add_comm 1]

theorem revised_applyFrom {table : EditTable} {index : Nat} {regions : List Region}
    (fits : ∀ front region back, regions = front ++ region :: back →
      ∀ edits, table.find? (index + front.length) = some edits → region.isOutside = true ∧
        ∀ edit ∈ edits, edit.Fits replaces (Text.lastOr before (Piece.join front))
          (Text.headOr (Piece.join back) after) region.text) :
    Revised replaces after before (Piece.paint regions)
      (Piece.paint (EditTable.applyFrom table index regions)) := by
  induction regions generalizing before index with
  | nil => exact .nil
  | cons region regions ih =>
      rw [EditTable.applyFrom, Piece.paint_append, Piece.paint_eq_append region regions]
      refine .append ?_ (ih ?_)
      · have own := fits [] region regions rfl
        split
        next edits found =>
          obtain ⟨free, fit⟩ := own edits found
          rw [Painted.paint_of_isOutside free]
          exact revised_splice (by simpa using fit)
        next => exact .refl _ _
      · rintro front other back rfl edits found
        have later := fits (region :: front) other back rfl edits
          (by rw [List.length_cons, ← found]; congr 1; omega)
        simpa using later

def EditsFit (replaces : Replacement) (edits : List (Nat × Edit)) (regions : List Region) : Prop :=
  ∀ front region back, regions = front ++ region :: back →
    ∀ edit, (front.length, edit) ∈ edits → region.isOutside = true ∧
      edit.Fits replaces (Text.lastOr none (Piece.join front))
        (Text.headOr (Piece.join back) none) region.text

theorem EditsFit.revised {edits : List (Nat × Edit)} {left middle right : List Region}
    (fits : EditsFit replaces edits (left ++ middle ++ right)) :
    Revised replaces (Text.headOr (Piece.join right) none) (Text.lastOr none (Piece.join left))
      (Piece.paint middle)
      (Piece.paint (EditTable.applyFrom (EditTable.ofList edits) left.length middle)) := by
  refine revised_applyFrom ?_
  intro front region back split own found
  obtain ⟨⟨edit, present⟩, all⟩ := EditTable.find?_ofList found
  have fit := fits (left ++ front) region (back ++ right) (by simp [split])
  simp only [List.length_append, Piece.join_append, Text.lastOr_append, Text.headOr_append] at fit
  exact ⟨(fit edit present).1, fun other member => (fit other (all other member)).2⟩

theorem revised_apply {edits : List (Nat × Edit)} {regions : List Region}
    (fits : EditsFit replaces edits regions) :
    Revised replaces none none (Piece.paint regions)
      (Piece.paint ((EditTable.ofList edits).apply regions)) := by
  unfold EditTable.apply
  split
  next => exact .refl _ _
  next =>
    rw [Piece.paint_fuse]
    exact @EditsFit.revised _ _ [] regions [] (by simpa using fits)

end DollarMath
