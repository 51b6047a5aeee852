import DollarMath.Proofs.Region.Parts
import DollarMath.Proofs.Region.StraySpans

/-!
Passes that leave what is held back alone. Whether a character is held back depends on the document
before it only, so that the places of a pass over the whole document lie clear of what is held back
in every region.
-/

namespace DollarMath

/-- The spans given for the regions hold back the characters that the documents before them say. -/
def HoldsBack (isHeld : List Char → Bool) : (before : List Char) → List Region →
    List (List Span) → Prop
  | _, [], _ => True
  | before, region :: regions, held =>
    (region.isOutside = true → ∀ front char back, region.text = front ++ char :: back →
      (held.headD []).any (·.contains front.length) = isHeld (before ++ front)) ∧
    HoldsBack isHeld (before ++ region.text) regions held.tail

def isOnStrayLine (regions : List Region) (before : List Char) : Bool :=
  hasStrayAt regions (before.count '\n')

theorem holdsBack_strayDollars (regions : List Region) :
    HoldsBack (isOnStrayLine regions) [] regions (strayDollars regions) := by
  suffices all : ∀ front back, regions = front ++ back →
      HoldsBack (isOnStrayLine regions) (Piece.join front) back
        ((strayDollars regions).drop front.length) from all [] regions rfl
  intro front back whole
  induction back generalizing front with
  | nil => trivial
  | cons region back ih =>
      refine ⟨fun free left char right place => ?_, ?_⟩
      · rw [whole]
        exact strayDollars_contains free place
      · have rest := ih (front ++ [region]) (by simp [whole])
        rw [List.length_append, List.length_singleton, ← List.drop_drop, List.drop_one,
          Piece.join_append, Piece.join_cons, Piece.join_nil, List.append_nil] at rest
        exact rest

/-- A place where a pass makes inline math by its rule, clear of what is held back. If the
characters around it are those the pass was given, the rule holds of the characters around it. -/
structure Place.Obeys (replaces : Replacement) (certain : Prop) (isHeld : List Char → Bool)
    (place : Place) : Prop where
  filled : place.text ≠ []
  replaced : ∃ before after, replaces before place.text [Region.dollars place.body] after ∧
    (certain → before = place.before.getLast? ∧ after = place.after.head?)
  clear : ∀ front char back, place.text = front ++ char :: back →
    isHeld (place.before ++ front) = false

variable {replaces : Replacement} {certain : Prop} {isHeld : List Char → Bool}

theorem reworks_revise {revise : Revision} (follows : revise.Follows replaces)
    (wraps : Wraps replaces) {before after : Option Char} {pre text post : List Char}
    (seen : certain → before = pre.getLast? ∧ after = post.head?)
    (clear : ∀ front char back, text = front ++ char :: back → isHeld (pre ++ front) = false) :
    Reworks (Place.Obeys replaces certain isHeld) pre post (Painted.outside text)
      (Piece.paint (revise before text after)) := by
  refine ((follows before text after).reworks wraps pre post seen).mono ?_
  rintro place gap rest textEq beforeEq - ⟨filled, replaced⟩
  refine ⟨filled, replaced, fun front char back own => ?_⟩
  rw [Painted.text_outside, own] at textEq
  rw [beforeEq, List.append_assoc]
  exact clear (gap ++ front) char (back ++ rest) (by simp [textEq])

theorem reworks_reviseAround {revise : Revision} (follows : revise.Follows replaces)
    (wraps : Wraps replaces) {spans : List Span} {offset : Nat} {before after : Option Char}
    {pre text post : List Char} (ordered : Span.AreOrdered (offset + text.length) spans)
    (later : ∀ span ∈ spans, offset ≤ span.start)
    (seen : certain → before = pre.getLast? ∧ after = post.head?)
    (holds : ∀ front char back, text = front ++ char :: back →
      spans.any (·.contains (offset + front.length)) = isHeld (pre ++ front)) :
    Reworks (Place.Obeys replaces certain isHeld) pre post (Painted.outside text)
      (Piece.paint (reviseAround revise after before offset text spans)) := by
  induction spans generalizing offset before pre text with
  | nil =>
      unfold reviseAround
      split
      next empty =>
        rw [List.isEmpty_iff.mp empty]
        exact .refl []
      next =>
        exact reworks_revise follows wraps seen fun front char back own =>
          (holds front char back own).symm
  | cons span spans ih =>
      obtain ⟨free, held, left, rfl, freeLength, heldLength, revised, orderedRest, next⟩ :=
        exists_reviseAround revise after before ordered (later span (by simp))
      have start := later span (by simp)
      have bounds := ordered.inside span (by simp)
      rw [revised, Painted.outside_append, Piece.paint_append]
      refine .append ?_ ?_
      · split
        next empty =>
          rw [List.isEmpty_iff.mp empty]
          exact .refl []
        next =>
          refine reworks_revise follows wraps (fun known => ⟨(seen known).1, ?_⟩) ?_
          · rw [Painted.text_outside, (seen known).2, Text.headOr_head?]
          · intro front char back own
            rw [← holds front char (back ++ (held ++ left)) (by simp [own])]
            have place : front.length < free.length := by simp [own]
            rw [List.any_eq_false]
            intro other member
            have stop : span.start ≤ other.start := by
              rcases List.mem_cons.mp member with rfl | others
              · exact Nat.le_refl _
              · exact Nat.le_trans (Nat.le_of_lt bounds.1) (next other others)
            simp only [Span.contains, Bool.and_eq_true, decide_eq_true_eq, not_and]
            omega
      · rw [Painted.outside_append, Piece.paint_cons]
        refine .append (.refl _) ?_
        simp only [Painted.text_outside]
        refine ih orderedRest next (fun known => ⟨?_, (seen known).2⟩) ?_
        · rw [(seen known).1, Text.lastOr_getLast?, Text.lastOr_getLast?]
        · intro front char back own
          have whole := holds (free ++ (held ++ front)) char back (by simp [own])
          have place : offset + (free ++ (held ++ front)).length = span.stop + front.length := by
            simp only [List.length_append]
            omega
          have passed : span.contains (span.stop + front.length) = false := by
            simp [Span.contains]
          rw [place, List.any_cons, passed, Bool.false_or] at whole
          rw [whole]
          simp

theorem reworks_reviseOutsideAfter {revise : Revision} (follows : revise.Follows replaces)
    (wraps : Wraps replaces) {skip : Region → Bool} {regions : List Region}
    {held : List (List Span)} {before : Option Char} {pre : List Char}
    (ordered : ∀ pair ∈ regions.zip held, Span.AreOrdered pair.1.text.length pair.2)
    (holds : HoldsBack isHeld pre regions held)
    (nonempty : certain → ∀ region ∈ regions, region.text ≠ [])
    (seen : certain → before = pre.getLast?) :
    Reworks (Place.Obeys replaces certain isHeld) pre [] (Piece.paint regions)
      (Piece.paint (reviseOutsideAfter revise skip before regions held)) := by
  induction regions generalizing held before pre with
  | nil => exact .refl []
  | cons region regions ih =>
      obtain ⟨ownHolds, restHolds⟩ := holds
      have others : certain → ∀ other ∈ regions, other.text ≠ [] :=
        fun known other member => nonempty known other (by simp [member])
      have orderedOthers :
          ∀ pair ∈ regions.zip held.tail, Span.AreOrdered pair.1.text.length pair.2 := by
        cases held with
        | nil => simp
        | cons spans held => exact fun pair member => ordered pair (List.mem_cons_of_mem _ member)
      have orderedOwn : Span.AreOrdered (0 + region.text.length) (held.headD []) := by
        cases held with
        | nil => exact ⟨by simp, by simp⟩
        | cons spans held => simpa using ordered (region, spans) (by simp)
      have rest := @ih held.tail region.text.getLast? (pre ++ region.text) orderedOthers restHolds
        others fun known => (List.getLast?_append_of_ne_nil _ (nonempty known region (by simp))).symm
      rw [reviseOutsideAfter, Piece.paint_append, Piece.paint_eq_append region regions]
      refine .append ?_ (by simpa using rest)
      split
      next revisable =>
        have free : region.isOutside = true := by
          simp only [Bool.and_eq_true] at revisable
          exact revisable.1
        rw [Painted.paint_of_isOutside free]
        refine reworks_reviseAround follows wraps orderedOwn (by simp)
          (fun known => ⟨seen known, ?_⟩) ?_
        · rw [Painted.text_paint, List.append_nil]
          have first := firstOf_or (others known) none
          rwa [Option.or_none, ← Text.head?_or, Option.or_none] at first
        · intro front char back own
          rw [Nat.zero_add]
          exact ownHolds free front char back own
      next => exact .refl _

/-- The places of a pass that holds lines with a stray dollar back do not touch these lines. -/
theorem reworks_reviseOutside {revise : Revision} (follows : revise.Follows replaces)
    (wraps : Wraps replaces) {skip : Region → Bool} {regions : List Region}
    (nonempty : certain → ∀ region ∈ regions, region.text ≠ []) :
    Reworks (Place.Obeys replaces certain (isOnStrayLine regions)) [] [] (Piece.paint regions)
      (Piece.paint (reviseOutside revise regions skip (strayDollars regions))) := by
  rw [reviseOutside, Piece.paint_fuse]
  exact reworks_reviseOutsideAfter follows wraps (ordered_strayDollars regions)
    (holdsBack_strayDollars regions) nonempty fun _ => rfl

end DollarMath
