import DollarMath.Proofs.Document.Fences
import DollarMath.Proofs.Document.Marks

/-!
The regions of a document seen as blocks of fenced code and the regions of the prose between them.
-/

namespace DollarMath

abbrev Chunks := List (List Char × Painted)

namespace Chunks

def paint (front : Painted) (chunks : Chunks) : Painted :=
  front ++ chunks.flatMap fun chunk => chunk.1.map (·, .code) ++ chunk.2

def parts (chunks : Chunks) : Fence.Parts :=
  chunks.map fun chunk => (chunk.1, chunk.2.text)

def ofParts (parts : Fence.Parts) : Chunks :=
  parts.map fun part => (part.1, Piece.paint (Document.proseRegions part.2))

@[simp] theorem paint_nil (front : Painted) : paint front [] = front := by
  simp [paint]

@[simp] theorem paint_cons (front prose : Painted) (block : List Char) (chunks : Chunks) :
    paint front ((block, prose) :: chunks) =
      front ++ (block.map (·, .code) ++ paint prose chunks) := by
  simp [paint]

@[simp] theorem parts_nil : parts [] = [] := rfl

@[simp] theorem parts_cons (block : List Char) (prose : Painted) (chunks : Chunks) :
    parts ((block, prose) :: chunks) = (block, prose.text) :: parts chunks := rfl

theorem text_paint (front : Painted) (chunks : Chunks) :
    (paint front chunks).text = Piece.join (Fence.assemble front.text chunks.parts) := by
  induction chunks generalizing front with
  | nil => simp [Fence.assemble]
  | cons chunk chunks ih =>
      obtain ⟨block, prose⟩ := chunk
      rw [paint_cons, Painted.text_append, Painted.text_append, Painted.text_map, ih]
      simp [Fence.assemble]

theorem parts_ofParts (parts : Fence.Parts) : (ofParts parts).parts = parts := by
  induction parts with
  | nil => rfl
  | cons part parts ih =>
      obtain ⟨block, prose⟩ := part
      have same : Painted.text (Piece.paint (Document.proseRegions prose)) = prose := by
        rw [Painted.text_paint, Document.join_proseRegions]
      simp only [ofParts, Chunks.parts, List.map_cons, List.map_map] at ih ⊢
      rw [same, ih]

end Chunks

namespace Document

theorem paint_segmentRegions_of_empty {segment : Segment} (empty : segment.text = []) :
    Piece.paint (segmentRegions segment) = [] := by
  have spelled := join_segmentRegions segment
  rw [empty, ← Painted.text_paint] at spelled
  exact List.map_eq_nil_iff.mp spelled

theorem paint_flatMap_filter (segments : List Segment) :
    Piece.paint ((segments.filter (!·.text.isEmpty)).flatMap segmentRegions) =
      Piece.paint (segments.flatMap segmentRegions) := by
  induction segments with
  | nil => rfl
  | cons segment segments ih =>
      rw [List.filter_cons]
      split
      next => rw [List.flatMap_cons, List.flatMap_cons, Piece.paint_append, Piece.paint_append, ih]
      next empty =>
        rw [List.flatMap_cons, Piece.paint_append, ih,
          paint_segmentRegions_of_empty (by simpa using empty)]
        rfl

theorem paint_flatMap_assemble (front : List Char) (parts : Fence.Parts) :
    Piece.paint ((Fence.assemble front parts).flatMap segmentRegions) =
      Chunks.paint (Piece.paint (proseRegions front)) (Chunks.ofParts parts) := by
  induction parts generalizing front with
  | nil => simp [Fence.assemble, segmentRegions, Chunks.ofParts]
  | cons part parts ih =>
      obtain ⟨block, prose⟩ := part
      have rest := ih prose
      simp only [Fence.assemble, Fence.segmentsOf_cons, List.flatMap_cons, Piece.paint_append,
        Chunks.ofParts, List.map_cons, Chunks.paint_cons] at rest ⊢
      rw [rest]
      simp [segmentRegions, Region.code]

/-- A document is blocks of fenced code, each on lines of its own, and the regions of prose. -/
theorem exists_chunks (text : List Char) :
    ∃ front parts, Fence.split text = Piece.fuse (Fence.assemble front parts) ∧
      Fence.Framed (Text.lastOr none front) parts ∧
      Piece.paint (regions text) =
        Chunks.paint (Piece.paint (proseRegions front)) (Chunks.ofParts parts) := by
  obtain ⟨front, parts, splitEq, framed⟩ := Fence.exists_assemble text
  refine ⟨front, parts, splitEq, framed, ?_⟩
  rw [regions, Piece.paint_fuse, splitEq, Fence.fuse_assemble framed, paint_flatMap_filter,
    paint_flatMap_assemble]

end Document

end DollarMath
