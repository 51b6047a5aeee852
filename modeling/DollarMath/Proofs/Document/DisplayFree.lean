import DollarMath.Proofs.Document.Lossless

/-!
The kinds of regions that the steps of cutting prose bring in. A text without dollars holds no
display math.
-/

namespace DollarMath

def Painted.FreeOf (kind : RegionKind) (painted : Painted) : Prop :=
  ∀ stroke ∈ painted, stroke.2 ≠ kind

section FreeOf

variable {avoided : RegionKind}

theorem Painted.FreeOf.append {first second : Painted} (left : first.FreeOf avoided)
    (right : second.FreeOf avoided) : FreeOf avoided (first ++ second) := by
  intro stroke member
  rcases List.mem_append.mp member with inFirst | inSecond
  · exact left stroke inFirst
  · exact right stroke inSecond

theorem Painted.freeOf_paint {region : Region} (other : region.kind ≠ avoided) :
    FreeOf avoided (Piece.paint [region]) := by
  intro stroke member
  rw [Piece.paint_cons, Piece.paint_nil, List.append_nil] at member
  obtain ⟨char, _, rfl⟩ := List.mem_map.mp member
  exact other

theorem freeOf_marking (recognize : Text.Recognizer Unit) {kind : RegionKind}
    (other : kind ≠ avoided) (frozen : .outside ≠ avoided) (before : Option Char)
    (text : List Char) (after : Option Char) :
    Painted.FreeOf avoided (Piece.paint (marking recognize kind before text after)) := by
  unfold marking substitution
  generalize Text.scan recognize none text = founds
  induction founds with
  | nil => simp [Painted.FreeOf]
  | cons found founds ih =>
      rw [List.flatMap_cons, Piece.paint_append]
      refine Painted.FreeOf.append ?_ ih
      cases found with
      | gap char => exact Painted.freeOf_paint frozen
      | hit previous taken value next => exact Painted.freeOf_paint other

theorem freeOf_reviseOutside {revise : Revision}
    (own : ∀ before text after, Painted.FreeOf avoided (Piece.paint (revise before text after)))
    {regions : List Region} (all : Painted.FreeOf avoided (Piece.paint regions)) :
    Painted.FreeOf avoided (Piece.paint (reviseOutside revise regions)) := by
  rw [reviseOutside, Piece.paint_fuse]
  generalize (none : Option Char) = before
  induction regions generalizing before with
  | nil => exact all
  | cons region regions ih =>
      rw [Piece.paint_eq_append] at all
      rw [reviseOutsideAfter, Piece.paint_append]
      refine .append ?_ (ih (fun stroke member => all stroke (by simp [member])) _)
      split
      next =>
        rw [List.headD_nil, reviseAround]
        split
        next => simp [Painted.FreeOf]
        next => exact own _ _ _
      next => exact fun stroke member => all stroke (List.mem_append_left _ member)

theorem Link.freeOf_freezeLine (other : .link ≠ avoided) (frozen : .outside ≠ avoided)
    (line : List Char) : Painted.FreeOf avoided (Piece.paint (freezeLine line)) := by
  unfold freezeLine
  dsimp only
  split
  next =>
    rw [Piece.paint_eq_append]
    exact .append (Painted.freeOf_paint other) (Painted.freeOf_paint frozen)
  next => exact freeOf_marking address other frozen none line none

theorem Link.freeOf_freezeLines (other : .link ≠ avoided) (frozen : .outside ≠ avoided)
    (lines : List (List Char)) :
    Painted.FreeOf avoided (Piece.paint (lines.flatMap freezeLine)) := by
  induction lines with
  | nil => simp [Painted.FreeOf]
  | cons line lines ih =>
      rw [List.flatMap_cons, Piece.paint_append]
      exact (freeOf_freezeLine other frozen line).append ih

end FreeOf

namespace DisplayMath

theorem hitSpans_eq_nil {offset : Nat} {before : Option Char} {text : List Char}
    (free : ¬ ['$', '$'] <:+: text) : Text.hitSpans offset (Text.scan onLine before text) = [] := by
  fun_induction Text.scan onLine before text generalizing offset with
  | case1 => rfl
  | case2 before char rest _ ih =>
      rw [Text.hitSpans]
      exact ih fun found => free (List.infix_cons found)
  | case3 before char rest size value found _ _ =>
      unfold onLine at found
      split at found
      next first others whole => exact absurd ⟨[], first :: others, by simp [whole]⟩ free
      next => simp at found

theorem not_isDelimiterLine {line : List Char} (free : ¬ ['$', '$'] <:+: line) :
    isDelimiterLine line = false := by
  by_contra delimiter
  have stripped : Text.strip line = ['$', '$'] := by simpa [isDelimiterLine] using delimiter
  exact free (stripped ▸ Text.strip_isInfix line)

theorem spans_eq_nil {text : List Char} (free : ¬ ['$', '$'] <:+: text) : spans text = [] := by
  have clear : ∀ line ∈ Text.lines text, ¬ ['$', '$'] <:+: line := by
    intro line member dollars
    rw [← Text.flatten_lines text] at free
    exact free (dollars.trans (List.infix_of_mem_flatten member))
  unfold spans
  generalize Text.lines text = lines at clear
  generalize (0 : Nat) = offset
  fun_induction spansFrom offset lines with
  | case1 => rfl
  | case2 offset line rest inside last after found _ _ =>
      rw [block?_eq_some_iff, not_isDelimiterLine (clear line (by simp))] at found
      simp at found
  | case3 offset line rest _ ih =>
      rw [hitSpans_eq_nil (clear line (by simp)), List.nil_append]
      exact ih fun other member => clear other (by simp [member])

theorem not_doubled {text : List Char} (free : '$' ∉ text) : ¬ ['$', '$'] <:+: text :=
  fun found => free (found.subset (by simp))

theorem split_eq_self {regions : List Region} (free : '$' ∉ Piece.join regions) :
    split regions = regions := by
  have hidden : '$' ∉ masked regions := by
    intro member
    obtain ⟨region, inRegions, dollar⟩ := List.mem_flatMap.mp member
    split at dollar
    next => exact free (List.mem_flatMap.mpr ⟨region, inRegions, dollar⟩)
    next =>
      obtain ⟨char, _, same⟩ := List.mem_map.mp dollar
      split at same
      next isReturn =>
        rw [same] at isReturn
        exact absurd isReturn (by decide)
      next => exact absurd same (by decide)
  rw [split, spans_eq_nil (not_doubled hidden)]
  rfl

theorem freeOf_markText {avoided : RegionKind} (other : .display ≠ avoided)
    (frozen : .outside ≠ avoided) (spans : List Span) (offset : Nat) (text : List Char) :
    Painted.FreeOf avoided (Piece.paint (markText spans offset text)) := by
  induction text generalizing offset with
  | nil => simp [markText, Painted.FreeOf]
  | cons char text ih =>
      rw [markText, Piece.paint_eq_append]
      refine .append ?_ (ih _)
      split
      next => exact Painted.freeOf_paint other
      next => exact Painted.freeOf_paint frozen

theorem freeOf_markFrom {avoided : RegionKind} (other : .display ≠ avoided)
    (frozen : .outside ≠ avoided) (spans : List Span) (offset : Nat) {regions : List Region}
    (all : Painted.FreeOf avoided (Piece.paint regions)) :
    Painted.FreeOf avoided (Piece.paint (markFrom spans offset regions)) := by
  induction regions generalizing offset with
  | nil => exact all
  | cons region regions ih =>
      rw [Piece.paint_eq_append] at all
      rw [markFrom, Piece.paint_append]
      refine .append ?_ (ih _ fun stroke member => all stroke (by simp [member]))
      split
      next => exact freeOf_markText other frozen spans offset region.text
      next => exact fun stroke member => all stroke (List.mem_append_left _ member)

theorem freeOf_split {avoided : RegionKind} (other : .display ≠ avoided)
    (frozen : .outside ≠ avoided) {regions : List Region}
    (all : Painted.FreeOf avoided (Piece.paint regions)) :
    Painted.FreeOf avoided (Piece.paint (split regions)) := by
  unfold split
  dsimp only
  split
  next => exact all
  next =>
    rw [Piece.paint_fuse]
    exact freeOf_markFrom other frozen _ _ all

end DisplayMath

namespace Document

theorem freeOf_linkedRegions {avoided : RegionKind} (code : .code ≠ avoided)
    (link : .link ≠ avoided) (frozen : .outside ≠ avoided) (text : List Char) :
    Painted.FreeOf avoided (Piece.paint (Link.freeze (InlineCode.split [Region.outside text]))) :=
  freeOf_reviseOutside (fun _ text _ => Link.freeOf_freezeLines link frozen (Text.lines text))
    (freeOf_reviseOutside (freeOf_marking InlineCode.span code frozen)
      (Painted.freeOf_paint frozen))

theorem noDisplay_proseRegions {text : List Char} (free : '$' ∉ text) :
    Painted.FreeOf .display (Piece.paint (proseRegions text)) := by
  unfold proseRegions
  split
  next => exact Painted.freeOf_paint (by simp [Region.link])
  next =>
    have links : Painted.FreeOf .display
        (Piece.paint (Link.freeze (InlineCode.split [Region.outside text]))) :=
      freeOf_linkedRegions (by decide) (by decide) (by decide) text
    have coded : Painted.text (Piece.paint (InlineCode.split [Region.outside text])) =
        Painted.text (Piece.paint [Region.outside text]) := (keepsFrozen_run .code _).text_eq
    have linked : Painted.text (Piece.paint (Link.freeze (InlineCode.split [Region.outside text]))) =
        Painted.text (Piece.paint (InlineCode.split [Region.outside text])) :=
      (keepsFrozen_run .links _).text_eq
    have unmarked : '$' ∉ Piece.join (Link.freeze (InlineCode.split [Region.outside text])) := by
      rw [← Painted.text_paint, linked, coded]
      simpa [Region.outside] using free
    rw [DisplayMath.split_eq_self unmarked]
    exact freeOf_reviseOutside (freeOf_marking InlineMath.span (by decide) (by decide)) links

theorem noDisplay_regions {text : List Char} (free : '$' ∉ text) :
    Painted.FreeOf .display (Piece.paint (regions text)) := by
  have spelled := Fence.join_split text
  rw [regions, Piece.paint_fuse]
  rw [← spelled] at free
  generalize Fence.split text = segments at free
  induction segments with
  | nil => simp [Painted.FreeOf]
  | cons segment segments ih =>
      rw [List.flatMap_cons, Piece.paint_append]
      refine .append ?_ (ih fun member => free (by simp [member]))
      unfold segmentRegions
      split
      next => exact Painted.freeOf_paint (by simp [Region.code])
      next => exact noDisplay_proseRegions fun member => free (by simp [member])

end Document

end DollarMath
