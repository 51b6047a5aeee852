import DollarMath.Proofs.Document.Marks

/-!
Cutting a document into regions loses nothing: every character stays in its place, and what is
frozen already stays frozen as it was.
-/

namespace DollarMath

namespace Painted

/-- The same characters in the same places, those that were frozen with the kind that they had. -/
def KeepsFrozen (old new : Painted) : Prop :=
  List.Forall₂ (fun before after => after.1 = before.1 ∧
    (before.2 ≠ .outside → after.2 = before.2)) old new

namespace KeepsFrozen

theorem append {first first' second second' : Painted} (left : KeepsFrozen first first')
    (right : KeepsFrozen second second') : KeepsFrozen (first ++ second) (first' ++ second') :=
  List.rel_append left right

theorem text_eq {old new : Painted} (kept : KeepsFrozen old new) : new.text = old.text := by
  induction kept with
  | nil => rfl
  | cons same _ ih =>
      simp only [text, List.map_cons, same.1] at ih ⊢
      rw [ih]

theorem of_outside (kind : RegionKind) (chars : List Char) :
    KeepsFrozen (outside chars) (chars.map (·, kind)) := by
  induction chars with
  | nil => exact .nil
  | cons char chars ih => exact .cons ⟨rfl, fun frozen => absurd rfl frozen⟩ ih

end KeepsFrozen

end Painted

namespace Document

theorem keepsFrozen_of_marks {before after : Option Char} {old new : Painted}
    (marked : Revised Marks after before old new) : old.KeepsFrozen new := by
  induction marked with
  | nil => exact .nil
  | keep _ ih => exact .cons ⟨rfl, fun _ => rfl⟩ ih
  | @replace _ text _ _ _ _ replaced _ ih =>
      cases replaced with
      | @mark kind _ _ _ _ _ =>
          have own := Painted.KeepsFrozen.of_outside kind text
          rw [Piece.paint_cons, Piece.paint_nil, List.append_nil]
          exact own.append ih

theorem keepsFrozen_reviseOutside {revise : Revision} (follows : revise.Follows Marks)
    (regions : List Region) :
    Painted.KeepsFrozen (Piece.paint regions) (Piece.paint (reviseOutside revise regions)) :=
  forall₂_reviseOutside (fun _ => ⟨rfl, fun _ => rfl⟩)
    (fun before text after => keepsFrozen_of_marks (follows before text after)) regions

inductive Cut where
  | code
  | links
  | display
  | inline

def Cut.run : Cut → List Region → List Region
  | code => InlineCode.split
  | links => Link.freeze
  | display => DisplayMath.split
  | inline => InlineMath.split

theorem keepsFrozen_run (cut : Cut) (regions : List Region) :
    Painted.KeepsFrozen (Piece.paint regions) (Piece.paint (cut.run regions)) := by
  cases cut with
  | code => exact keepsFrozen_reviseOutside follows_codeSpans regions
  | links => exact keepsFrozen_reviseOutside Link.follows_freezeLines regions
  | display => exact keepsFrozen_of_marks (DisplayMath.marked_split regions)
  | inline => exact keepsFrozen_reviseOutside follows_inlineMath regions

/-- The regions of a document spell it, none is empty and neighbours differ in kind. Each way of
cutting keeps the text of any regions whatever, and what is frozen in them. -/
theorem lossless_regions :
    (∀ text, Piece.join (regions text) = text ∧ Piece.IsFused (regions text)) ∧
      ∀ (cut : Cut) (pieces : List Region), Piece.join (cut.run pieces) = Piece.join pieces ∧
        Painted.KeepsFrozen (Piece.paint pieces) (Piece.paint (cut.run pieces)) := by
  refine ⟨fun text => ⟨join_regions text, isFused_regions text⟩, ?_⟩
  intro cut pieces
  have kept := keepsFrozen_run cut pieces
  refine ⟨?_, kept⟩
  rw [← Painted.text_paint, kept.text_eq, Painted.text_paint]

end Document

end DollarMath
