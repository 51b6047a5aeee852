import DollarMath.Proofs.Region.Rows
import DollarMath.Proofs.Region.StraySpans
import DollarMath.Proofs.Text.Search

/-!
The lines of fragments as a partition of the document in two ways. Line by line the fragments make
up its physical lines, and region by region they tile the text of the region from end to end.
-/

namespace DollarMath

structure Region.IsTiledBy (region : Region) (fragments : List Fragment) : Prop where
  kindEq : ∀ fragment ∈ fragments, fragment.kind = region.kind
  textEq : ∀ fragment ∈ fragments, fragment.text = fragment.span.slice region.text
  tiles : Span.Tiles 0 region.text.length (fragments.map Fragment.span)

/-- The spans are those of the fragments outside that the region with the given index has on lines
with a stray dollar. They are ordered spans of its text, and only a region outside has any. -/
structure Region.HoldsStrays (lines : List Line) (index : Nat) (region : Region)
    (spans : List Span) : Prop where
  mem_iff : ∀ span, span ∈ spans ↔ ∃ line ∈ lines, line.hasStrayDollar = true ∧
    ∃ fragment ∈ line.fragments, fragment.index = index ∧ fragment.kind = .outside ∧
      fragment.span = span
  ordered : Span.AreOrdered region.text.length spans
  outside : spans ≠ [] → region.kind = .outside

namespace Fragment

theorem isTiledBy_ofRegion (index : Nat) (region : Region) :
    region.IsTiledBy (ofRegion index region) := by
  have placed : ∀ fragment ∈ ofRegion index region, fragment.kind = region.kind ∧
      fragment.text = fragment.span.slice region.text := by
    intro fragment member
    obtain ⟨front, back, split⟩ := List.append_of_mem member
    obtain ⟨above, below, linesEq, -, kindEq, spanEq, -⟩ := ofLines_split split
    have textEq := congrArg List.flatten linesEq
    rw [Text.flatten_physicalLines, List.flatten_append, List.flatten_cons] at textEq
    refine ⟨kindEq, ?_⟩
    rw [spanEq, Nat.zero_add, textEq, Span.slice_append]
  exact ⟨fun fragment member => (placed fragment member).1,
    fun fragment member => (placed fragment member).2, tiles_ofRegion index region⟩

end Fragment

namespace Line

theorem map_text_ofRegions (regions : List Region) :
    (ofRegions regions).map text = Text.physicalLines (Piece.join regions) := by
  have strokes :
      ((Fragment.ofRegions 0 regions).flatMap (Fragment.strokes Fragment.kind)).map Prod.fst =
        Piece.join regions := by
    rw [List.map_flatMap, ← Fragment.flatMap_text_ofRegions 0]
    exact List.flatMap_congr fun fragment _ => fragment.text_strokes Fragment.kind
  calc (ofRegions regions).map text
      = ((ofRegions regions).map (row Fragment.kind)).map Row.text := by simp [Function.comp_def]
    _ = Text.physicalLines (Piece.join regions) := by
        rw [map_row_ofRegions, map_text_rows, strokes]

def fragmentsOf (lines : List Line) (index : Nat) : List Fragment :=
  (lines.flatMap fragments).filter (·.index == index)

section Region

variable {regions : List Region} {index : Nat} {region : Region}

theorem isTiledBy_fragmentsOf (found : regions[index]? = some region) :
    region.IsTiledBy (fragmentsOf (ofRegions regions) index) := by
  rw [fragmentsOf, ofRegions, flatMap_fragments_group, Fragment.filter_ofRegions_of_getElem? found]
  exact Fragment.isTiledBy_ofRegion index region

theorem exists_strayDollars (found : regions[index]? = some region) :
    ∃ spans, (strayDollars regions)[index]? = some spans ∧ ∀ span, span ∈ spans ↔
      ∃ line ∈ ofRegions regions, line.hasStrayDollar = true ∧
        ∃ fragment ∈ line.fragments, fragment.index = index ∧ fragment.kind = .outside ∧
          fragment.span = span := by
  obtain ⟨bound, -⟩ := List.getElem?_eq_some_iff.mp found
  refine ⟨_, getElem?_strayDollars bound, fun span => ?_⟩
  simp only [strayFragments, looseFragments, List.mem_map, List.mem_filter, List.mem_flatMap,
    beq_iff_eq]
  constructor
  · rintro ⟨fragment, ⟨⟨line, ⟨inLines, stray⟩, inLine, loose⟩, own⟩, spanEq⟩
    exact ⟨line, inLines, stray, fragment, inLine, own, loose, spanEq⟩
  · rintro ⟨line, inLines, stray, fragment, inLine, own, loose, spanEq⟩
    exact ⟨fragment, ⟨⟨line, ⟨inLines, stray⟩, inLine, loose⟩, own⟩, spanEq⟩

theorem exists_holdsStrays (found : regions[index]? = some region) :
    ∃ spans, (strayDollars regions)[index]? = some spans ∧
      region.HoldsStrays (ofRegions regions) index spans := by
  obtain ⟨spans, spansEq, mem_iff⟩ := exists_strayDollars found
  have pair : (region, spans) ∈ regions.zip (strayDollars regions) :=
    List.mem_of_getElem? (List.getElem?_zip_eq_some.mpr ⟨found, spansEq⟩)
  refine ⟨spans, spansEq, mem_iff, ordered_strayDollars regions _ pair, fun filled => ?_⟩
  obtain ⟨span, member⟩ := List.exists_mem_of_ne_nil _ filled
  obtain ⟨line, inLines, -, fragment, inLine, own, loose, -⟩ := (mem_iff span).mp member
  have inRegion : fragment ∈ fragmentsOf (ofRegions regions) index := by
    rw [fragmentsOf, List.mem_filter]
    exact ⟨List.mem_flatMap.mpr ⟨line, inLines, inLine⟩, beq_iff_eq.mpr own⟩
  rw [← (isTiledBy_fragmentsOf found).kindEq fragment inRegion, loose]

end Region

/-- The lines make up the document, and each but the last ends with its only line feed. No fragment
is empty, and the fragments of each region tile its text in order. So what is held back in a region
are ordered spans of its text, and only regions outside have any. -/
theorem ofRegions_tiles (regions : List Region) :
    (ofRegions regions).flatMap text = Piece.join regions ∧
      (∀ above line below, ofRegions regions = above ++ line :: below →
        (∃ body, line.text = body ++ ['\n'] ∧ '\n' ∉ body) ∨ ('\n' ∉ line.text ∧ below = [])) ∧
      (∀ line ∈ ofRegions regions, ∀ fragment ∈ line.fragments,
        fragment.text ≠ [] ∧ fragment.index < regions.length) ∧
      (strayDollars regions).length = regions.length ∧
      ∀ (index : Nat) (region : Region), regions[index]? = some region →
        region.IsTiledBy (fragmentsOf (ofRegions regions) index) ∧
          ∃ spans, (strayDollars regions)[index]? = some spans ∧
            region.HoldsStrays (ofRegions regions) index spans := by
  have texts := map_text_ofRegions regions
  refine ⟨?_, fun above line below split => ?_, fun line inLines fragment inLine => ?_,
    by simp [strayDollars],
    fun index region found => ⟨isTiledBy_fragmentsOf found, exists_holdsStrays found⟩⟩
  · rw [List.flatMap_def, texts, Text.flatten_physicalLines]
  · rw [split, List.map_append, List.map_cons] at texts
    rcases Text.physicalLines_shape texts.symm with ended | ⟨free, noneBelow⟩
    · exact .inl ended
    · exact .inr ⟨free, List.map_eq_nil_iff.mp noneBelow⟩
  · have member : fragment ∈ Fragment.ofRegions 0 regions := by
      rw [← flatMap_fragments_group (Fragment.ofRegions 0 regions)]
      exact List.mem_flatMap.mpr ⟨line, inLines, inLine⟩
    obtain ⟨-, bound, filled⟩ := Fragment.index_ofRegions member
    exact ⟨filled, by omega⟩

end Line

end DollarMath
