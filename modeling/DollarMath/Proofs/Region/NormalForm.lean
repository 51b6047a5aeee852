import DollarMath.Proofs.Region.Fused

/-!
Fusing brings a list of pieces into the one normal form that paints the same text. Pieces may be
fused from either end: to put one piece after the other onto the last one gives the same list.
-/

namespace DollarMath.Piece

variable {κ : Type} [DecidableEq κ]

def push (pieces : List (Piece κ)) (piece : Piece κ) : List (Piece κ) :=
  if piece.text.isEmpty then pieces
  else
    match pieces.getLast? with
    | none => [piece]
    | some last =>
      if last.kind = piece.kind then pieces.dropLast ++ [⟨piece.kind, last.text ++ piece.text⟩]
      else pieces ++ [piece]

theorem push_of_empty (pieces : List (Piece κ)) {piece : Piece κ} (empty : piece.text = []) :
    push pieces piece = pieces := by
  simp [push, empty]

theorem push_concat {front : List (Piece κ)} {last piece : Piece κ} (filled : piece.text ≠ []) :
    push (front ++ [last]) piece =
      if last.kind = piece.kind then front ++ [⟨piece.kind, last.text ++ piece.text⟩]
      else front ++ [last] ++ [piece] := by
  simp [push, filled]

theorem paint_push (pieces : List (Piece κ)) (piece : Piece κ) :
    paint (push pieces piece) = paint (pieces ++ [piece]) := by
  by_cases empty : piece.text = []
  · simp [push_of_empty pieces empty, empty]
  · obtain rfl | ⟨front, last, rfl⟩ := List.eq_nil_or_concat' pieces
    · simp [push, empty]
    · rw [push_concat empty]
      split
      next same => simp [same]
      next => rfl

theorem IsFused.push {pieces : List (Piece κ)} (fused : IsFused pieces) (piece : Piece κ) :
    IsFused (push pieces piece) := by
  by_cases empty : piece.text = []
  · rwa [push_of_empty pieces empty]
  · obtain rfl | ⟨front, last, rfl⟩ := List.eq_nil_or_concat' pieces
    · exact ⟨by simp [Piece.push, empty], by simp [Piece.push, empty]⟩
    · rw [push_concat empty]
      obtain ⟨nonempty, differ⟩ := fused
      obtain ⟨frontChain, -, seam⟩ := List.isChain_append.mp differ
      split
      next same =>
        refine ⟨fun other member => ?_, frontChain.append (List.isChain_singleton _) ?_⟩
        · rcases List.mem_append.mp member with inFront | isLast
          · exact nonempty other (by simp [inFront])
          · simp [List.mem_singleton.mp isLast, empty]
        · simpa [same] using seam
      next differs =>
        refine ⟨fun other member => ?_, differ.append (List.isChain_singleton _) ?_⟩
        · rcases List.mem_append.mp member with before | isLast
          · exact nonempty other before
          · rwa [List.mem_singleton.mp isLast]
        · simpa using differs

theorem paint_foldl_push (front pieces : List (Piece κ)) :
    paint (pieces.foldl push front) = paint (front ++ pieces) := by
  induction pieces generalizing front with
  | nil => simp
  | cons piece pieces ih => rw [List.foldl_cons, ih, paint_append, paint_push]; simp

theorem IsFused.foldl_push {front : List (Piece κ)} (fused : IsFused front)
    (pieces : List (Piece κ)) : IsFused (pieces.foldl Piece.push front) := by
  induction pieces generalizing front with
  | nil => exact fused
  | cons piece pieces ih => exact ih (fused.push piece)

theorem foldl_push_eq_fuse (pieces : List (Piece κ)) : pieces.foldl push [] = fuse pieces := by
  have fused : IsFused (pieces.foldl push []) :=
    IsFused.foldl_push ⟨by simp, by simp⟩ pieces
  refine fused.eq_of_paint_eq (isFused_fuse pieces) ?_
  rw [paint_foldl_push, paint_fuse, List.nil_append]

/-- Lists of pieces are fused to the same list if they paint the same text, and only then. The fused
list paints that text too, with no empty piece and no neighbours of one kind, and just those lists
that are so already are left as they are. -/
theorem fuse_normalForm (first second : List (Piece κ)) :
    (fuse first = fuse second ↔ paint first = paint second) ∧
      paint (fuse first) = paint first ∧ IsFused (fuse first) ∧
      (fuse first = first ↔ IsFused first) ∧ first.foldl push [] = fuse first := by
  refine ⟨⟨fun same => ?_, fun same => ?_⟩, paint_fuse first, isFused_fuse first,
    ⟨fun same => ?_, fuse_eq_self⟩, foldl_push_eq_fuse first⟩
  · rw [← paint_fuse first, same, paint_fuse]
  · rw [fuse_eq_ofPaint, fuse_eq_ofPaint, same]
  · exact same ▸ isFused_fuse first

example : fuse [Region.outside ['a'], Region.link [], Region.outside ['b']] =
    [Region.outside ['a', 'b']] := by decide

end DollarMath.Piece
