import DollarMath.Proofs.Conversion.Frozen
import DollarMath.Proofs.Conversion.Layout

/-!
A block of code with the text before and after it, as regions that it keeps apart. A stage revises
the two texts each on its own, and they stay apart.
-/

namespace DollarMath

namespace Painted

theorem lastKind_ne_of_plain {regions : List Region} (filled : Piece.join regions ≠ [])
    (plain : ∀ region ∈ regions, region.kind.isVerbatim = false) (before : Option RegionKind) :
    lastKind before (Piece.paint regions) ≠ some .code := by
  induction regions generalizing before with
  | nil => exact absurd rfl filled
  | cons region regions ih =>
      rw [Piece.paint_cons, lastKind_append]
      by_cases last : Piece.join regions = []
      · have unpainted : Piece.paint regions = [] := by
          rw [← text_paint] at last
          exact List.map_eq_nil_iff.mp last
        rw [Piece.join_cons, last, List.append_nil] at filled
        rw [unpainted, lastKind, lastKind_map filled]
        intro same
        have own := plain region (by simp)
        rw [Option.some.inj same] at own
        exact absurd own (by decide)
      · exact ih last (fun other member => plain other (List.mem_cons_of_mem _ member)) _

end Painted

namespace Piece

theorem attach_append (piece : Region) {pieces : List Region} (filled : pieces ≠ [])
    (rest : List Region) : attach piece (pieces ++ rest) = attach piece pieces ++ rest := by
  obtain ⟨next, others, rfl⟩ := List.exists_cons_of_ne_nil filled
  simp only [attach, List.cons_append]
  split
  · rfl
  · split <;> rfl

end Piece

def around (front : Painted) (block : List Char) (back : Painted) : List Region :=
  Piece.ofPaint front ++ Region.code block :: Piece.ofPaint back

@[simp] theorem paint_around (front : Painted) (block : List Char) (back : Painted) :
    Piece.paint (around front block back) = front ++ (block.map (·, .code) ++ back) := by
  simp [around, Region.code]

@[simp] theorem join_around (front : Painted) (block : List Char) (back : Painted) :
    Piece.join (around front block back) = front.text ++ block ++ back.text := by
  rw [← Painted.text_paint, paint_around]
  simp

/-- Texts that a block of code keeps apart: the one before it does not end with code, and the one
after it starts with a line feed that is neither code nor display math. -/
structure Seam (front back : Painted) : Prop where
  isSealed : Sealed false front
  ends : front.lastKind none ≠ some .code
  starts : ∀ stroke, back.head? = some stroke →
    stroke.1 = '\n' ∧ stroke.2 ≠ .code ∧ stroke.2 ≠ .display

theorem ofPaint_around {front back : Painted} (seam : Seam front back) {block : List Char}
    (filled : block ≠ []) :
    Piece.ofPaint (front ++ (block.map (·, .code) ++ back)) = around front block back := by
  have ends := seam.ends
  have starts := seam.starts
  clear seam
  unfold around
  induction front with
  | nil =>
      rw [List.nil_append, Piece.ofPaint_map_append]
      cases back with
      | nil => simp [Piece.ofPaint, Piece.attach, Region.code, filled]
      | cons stroke back =>
          obtain ⟨char, kind⟩ := stroke
          have notCode := (starts (char, kind) rfl).2.1
          obtain ⟨text, others, backEq⟩ := Piece.exists_ofPaint_cons char kind back
          rw [backEq]
          simp [Piece.ofPaint, Piece.attach, Region.code, filled, notCode.symm]
  | cons stroke front ih =>
      obtain ⟨char, kind⟩ := stroke
      rw [List.cons_append, Piece.ofPaint_cons, Piece.ofPaint_cons]
      cases front with
      | nil =>
          have notCode : kind ≠ .code := fun same => ends (by rw [same]; rfl)
          have rest := ih (by simp [Painted.lastKind])
          rw [rest]
          simp [Piece.ofPaint, Piece.attach, Region.code, notCode]
      | cons next front =>
          rw [ih ends, Piece.attach_append]
          obtain ⟨text, others, frontEq⟩ := Piece.exists_ofPaint_cons next.1 next.2 front
          rw [show next = (next.1, next.2) from rfl, frontEq]
          simp

theorem fuse_around {regions others : List Region} {block : List Char} (filled : block ≠ [])
    (seam : Seam (Piece.paint regions) (Piece.paint others)) :
    Piece.fuse (regions ++ Region.code block :: others) =
      around (Piece.paint regions) block (Piece.paint others) := by
  rw [Piece.fuse_eq_ofPaint, Piece.paint_append, Piece.paint_cons, ← ofPaint_around seam filled]
  rfl

theorem isFused_around {front back : Painted} (seam : Seam front back) {block : List Char}
    (filled : block ≠ []) : Piece.IsFused (around front block back) := by
  rw [← ofPaint_around seam filled]
  exact Piece.isFused_ofPaint _

section revising

variable {stage : Stage} {before before' after : Option Char} {old new : Painted}

/-- A text that does not end with code does not do so after a stage, as what is dropped never
stands right after code. -/
theorem Revised.lastKind_ne {held : Bool} {kind kind' : Option RegionKind}
    (revised : Revised stage.Replaces after before old new) (whole : Sealed held old)
    (start : kind' = some .code →
      kind = some .code ∧ before ≠ none ∧ (before = some '\n' → held = true))
    (ends : old.lastKind kind ≠ some .code) : new.lastKind kind' ≠ some .code := by
  induction revised generalizing held kind kind' with
  | nil => exact fun same => ends (start same).1
  | @keep before char own old new _ ih =>
      refine @ih _ (some own) (some own) whole.2 (fun same => ⟨same, by simp, fun feed => ?_⟩) ends
      rw [Option.some.inj same, Option.some.inj feed]
      rfl
  | @replace before text regions old new filled replaced _ ih =>
      obtain ⟨rfl, later⟩ := whole.drop_outside filled
      have oldEnds : old.lastKind (some .outside) ≠ some .code := by
        rw [Painted.lastKind_append] at ends
        have own := Painted.lastKind_map filled kind .outside
        unfold Painted.outside at ends
        rwa [own] at ends
      rw [Painted.lastKind_append]
      refine ih later (fun same => absurd same ?_) oldEnds
      rcases replaced.filled with filled | ⟨rfl, atStart⟩
      · exact Painted.lastKind_ne_of_plain filled replaced.plain _
      · intro same
        obtain ⟨_, present, feed⟩ := start same
        rcases atStart with absent | atFeed
        · exact present absent
        · exact absurd (feed atFeed) (by decide)

theorem Revised.keepsStartsLine (revised : Revised stage.Replaces after before old new)
    (start : StartsLine before → StartsLine before')
    (ends : StartsLine (Text.lastOr before old.text)) :
    StartsLine (Text.lastOr before' new.text) := by
  induction revised generalizing before' with
  | nil => exact start ends
  | keep _ ih => exact ih id ends
  | @replace before text regions old new filled replaced _ ih =>
      rw [Painted.text_append, Painted.text_outside, Text.lastOr_append] at ends
      rw [Painted.text_append, Painted.text_paint, Text.lastOr_append]
      refine ih (fun atStart => ?_) ends
      obtain ⟨rfl, atLine⟩ := replaced.of_startsLine filled atStart
      exact start atLine

theorem Revised.keepsFirst {stroke : Char × RegionKind}
    (revised : Revised stage.Replaces after before (stroke :: old) new)
    (inLine : ¬ StartsLine before) (isReturn : Text.isReturn stroke.1 = true) :
    new.head? = some stroke := by
  generalize wholeEq : stroke :: old = whole at revised
  cases revised with
  | nil => simp at wholeEq
  | keep _ =>
      simp only [List.cons.injEq] at wholeEq
      rw [wholeEq.1]
      rfl
  | @replace _ text _ _ _ filled replaced _ =>
      obtain ⟨first, rest, rfl⟩ := List.exists_cons_of_ne_nil filled
      simp only [Painted.outside_cons, List.cons_append, List.cons.injEq] at wholeEq
      rw [wholeEq.1] at isReturn
      exact absurd (replaced.starts rfl isReturn) inLine

end revising

theorem Seam.revised {stage : Stage} {front back front' back' : Painted} (seam : Seam front back)
    {block : List Char} (fenced : Fence.IsFenced block)
    (first : Revised stage.Replaces block.head? none front front')
    (second : Revised stage.Replaces none block.getLast? back back') : Seam front' back' := by
  refine ⟨?_, ?_, ?_⟩
  · exact first.sealed (fun _ _ _ _ replaced _ _ => sealed_plain replaced.plain) seam.isSealed
  · exact first.lastKind_ne seam.isSealed (fun same => by simp at same) seam.ends
  · obtain ⟨last, lastEq, fence⟩ := fenced.getLast
    have inLine : ¬ StartsLine block.getLast? := by
      rw [lastEq]
      rintro (absent | feed)
      · simp at absent
      · rw [Option.some.inj feed] at fence
        exact absurd fence (by decide)
    cases back with
    | nil =>
        rw [second.of_nil]
        simp
    | cons stroke back =>
        obtain ⟨feed, kinds⟩ := seam.starts stroke rfl
        have kept := second.keepsFirst inLine (by rw [feed]; rfl)
        intro other head
        rw [kept] at head
        rw [← Option.some.inj head]
        exact ⟨feed, kinds⟩

end DollarMath
