import DollarMath.Region.Basic
import Mathlib.Data.List.Chain

/-!
Fused pieces as a normal form: they are what can be read off the painted text alone, so two fused
lists that paint the same text are the same list.
-/

namespace DollarMath.Piece

variable {κ : Type}

structure IsFused (pieces : List (Piece κ)) : Prop where
  nonempty : ∀ piece ∈ pieces, piece.text ≠ []
  differ : pieces.IsChain fun first second => first.kind ≠ second.kind

@[simp] theorem join_nil : join ([] : List (Piece κ)) = [] := rfl

@[simp] theorem join_cons (piece : Piece κ) (pieces : List (Piece κ)) :
    join (piece :: pieces) = piece.text ++ join pieces := rfl

@[simp] theorem join_append (first second : List (Piece κ)) :
    join (first ++ second) = join first ++ join second :=
  List.flatMap_append

@[simp] theorem paint_nil : paint ([] : List (Piece κ)) = [] := rfl

@[simp] theorem paint_cons (piece : Piece κ) (pieces : List (Piece κ)) :
    paint (piece :: pieces) = piece.text.map (·, piece.kind) ++ paint pieces := rfl

@[simp] theorem paint_append (first second : List (Piece κ)) :
    paint (first ++ second) = paint first ++ paint second :=
  List.flatMap_append

theorem paint_eq_append (piece : Piece κ) (pieces : List (Piece κ)) :
    paint (piece :: pieces) = paint [piece] ++ paint pieces :=
  paint_append [piece] pieces

theorem isFused_single {piece : Piece κ} (filled : piece.text ≠ []) : IsFused [piece] :=
  ⟨by simpa using filled, by simp⟩

theorem IsFused.tail {piece : Piece κ} {pieces : List (Piece κ)}
    (fused : IsFused (piece :: pieces)) : IsFused pieces :=
  ⟨fun next member => fused.nonempty next (List.mem_cons_of_mem _ member), fused.differ.tail⟩

theorem IsFused.of_append {front back : List (Piece κ)}
    (fused : IsFused (front ++ back)) : IsFused back := by
  induction front with
  | nil => exact fused
  | cons piece front ih => exact ih fused.tail

theorem IsFused.kind_ne {front back : List (Piece κ)} {first second : Piece κ}
    (fused : IsFused (front ++ first :: second :: back)) : first.kind ≠ second.kind := by
  have rest := fused.of_append.differ
  exact (List.isChain_cons_cons.mp rest).1

variable [DecidableEq κ]

theorem fuse_cons (piece : Piece κ) (pieces : List (Piece κ)) :
    fuse (piece :: pieces) = attach piece (fuse pieces) := rfl

def ofPaint (painted : List (Char × κ)) : List (Piece κ) :=
  painted.foldr (fun stroke => attach ⟨stroke.2, [stroke.1]⟩) []

@[simp] theorem ofPaint_cons (char : Char) (kind : κ) (painted : List (Char × κ)) :
    ofPaint ((char, kind) :: painted) = attach ⟨kind, [char]⟩ (ofPaint painted) := rfl

theorem attach_of_empty (kind : κ) (pieces : List (Piece κ)) :
    attach ⟨kind, []⟩ pieces = pieces := by
  cases pieces <;> simp [attach]

theorem attach_attach (kind : κ) (first second : List Char) (pieces : List (Piece κ)) :
    attach ⟨kind, first⟩ (attach ⟨kind, second⟩ pieces) =
      attach ⟨kind, first ++ second⟩ pieces := by
  cases pieces with
  | nil => cases first <;> cases second <;> simp [attach]
  | cons next rest =>
      cases first with
      | nil => simp [attach_of_empty]
      | cons char first =>
          cases second with
          | nil => simp [attach_of_empty]
          | cons char' second =>
              by_cases same : kind = next.kind
              · simp [attach, same]
              · simp [attach, same]

theorem ofPaint_map_append (kind : κ) (text : List Char) (painted : List (Char × κ)) :
    ofPaint (text.map (·, kind) ++ painted) = attach ⟨kind, text⟩ (ofPaint painted) := by
  induction text with
  | nil => simp [attach_of_empty]
  | cons char text ih =>
      have split := attach_attach kind [char] text (ofPaint painted)
      simp only [List.map_cons, List.cons_append, ofPaint_cons, ih, split, List.nil_append]

theorem fuse_eq_ofPaint (pieces : List (Piece κ)) : fuse pieces = ofPaint (paint pieces) := by
  induction pieces with
  | nil => rfl
  | cons piece pieces ih => rw [fuse_cons, ih, paint_cons, ofPaint_map_append]

@[simp] theorem paint_ofPaint (painted : List (Char × κ)) : paint (ofPaint painted) = painted := by
  induction painted with
  | nil => rfl
  | cons stroke painted ih =>
      rw [ofPaint_cons, paint_attach, paint_cons, ih]
      rfl

theorem exists_ofPaint_cons (char : Char) (kind : κ) (painted : List (Char × κ)) :
    ∃ text others, ofPaint ((char, kind) :: painted) = ⟨kind, char :: text⟩ :: others := by
  rw [ofPaint_cons]
  cases ofPaint painted with
  | nil => exact ⟨[], [], by simp [attach]⟩
  | cons next rest =>
      by_cases same : kind = next.kind
      · exact ⟨next.text, rest, by simp [attach, same]⟩
      · exact ⟨[], next :: rest, by simp [attach, same]⟩

theorem isFused_attach (piece : Piece κ) {pieces : List (Piece κ)} (fused : IsFused pieces) :
    IsFused (attach piece pieces) := by
  obtain ⟨kind, text⟩ := piece
  cases text with
  | nil => rwa [attach_of_empty]
  | cons char text =>
      cases pieces with
      | nil => exact ⟨by simp [attach], by simp [attach]⟩
      | cons next rest =>
          by_cases same : kind = next.kind
          · have others : ∀ piece ∈ rest, piece.text ≠ [] := fused.tail.nonempty
            refine ⟨by simpa [attach, same] using others, ?_⟩
            have chain := fused.differ
            simp only [List.isChain_cons] at chain
            simpa [attach, same, List.isChain_cons] using chain
          · have all := fused.nonempty
            refine ⟨by simpa [attach, same] using all, ?_⟩
            simpa [attach, same, List.isChain_cons_cons] using fused.differ

theorem isFused_fuse (pieces : List (Piece κ)) : IsFused (fuse pieces) := by
  induction pieces with
  | nil => exact ⟨by simp [fuse], by simp [fuse]⟩
  | cons piece pieces ih => exact isFused_attach piece ih

theorem isFused_ofPaint (painted : List (Char × κ)) : IsFused (ofPaint painted) := by
  rw [← paint_ofPaint painted, ← fuse_eq_ofPaint]
  exact isFused_fuse _

theorem attach_eq_cons {piece : Piece κ} {pieces : List (Piece κ)}
    (fused : IsFused (piece :: pieces)) : attach piece pieces = piece :: pieces := by
  have nonempty := fused.nonempty piece (by simp)
  cases pieces with
  | nil => simp [attach, nonempty]
  | cons next rest =>
      have differ := (List.isChain_cons_cons.mp fused.differ).1
      simp [attach, nonempty, differ]

theorem fuse_eq_self {pieces : List (Piece κ)} (fused : IsFused pieces) : fuse pieces = pieces := by
  induction pieces with
  | nil => rfl
  | cons piece pieces ih => rw [fuse_cons, ih fused.tail, attach_eq_cons fused]

/-- Fused pieces are determined by the text they paint. -/
theorem IsFused.eq_of_paint_eq {first second : List (Piece κ)} (left : IsFused first)
    (right : IsFused second) (same : paint first = paint second) : first = second := by
  rw [← fuse_eq_self left, ← fuse_eq_self right, fuse_eq_ofPaint, fuse_eq_ofPaint, same]

end DollarMath.Piece
