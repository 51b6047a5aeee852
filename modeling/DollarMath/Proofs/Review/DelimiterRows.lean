import DollarMath.Proofs.Conversion.DelimiterLines
import DollarMath.Proofs.Conversion.LinkLines
import DollarMath.Proofs.Document.LinkShapes
import DollarMath.Proofs.Document.PairedLines
import DollarMath.Proofs.Region.Rows
import DollarMath.Proofs.Review.Sight
import DollarMath.Proofs.Text.InlineLink

/-!
The delimiter lines of prose. None of them holds code or a link, so the search for display math sees
them all, and the regions of the prose show those as display math that are paired.
-/

namespace DollarMath

def Painted.IsDisplayAt (number first : Nat) (painted : Painted) : Prop :=
  ∀ stroke ∈ onLine number first painted, stroke.1 ≠ '\n' → stroke.2 = .display

instance (number first : Nat) (painted : Painted) : Decidable (painted.IsDisplayAt number first) :=
  inferInstanceAs (Decidable (∀ stroke ∈ Painted.onLine number first painted, _))

namespace Review

theorem exists_tick_of_codeVeil {before : Option Char} {text : List Char} {front back : Veiled}
    {char : Char} (whole : codeVeil before text = front ++ (char, false) :: back) :
    ∃ inside rest, char :: back.text = inside ++ '\x60' :: rest ∧ '\n' ∉ inside := by
  refine codeVeil_induction (motive := fun before text => ∀ front : Veiled,
    codeVeil before text = front ++ (char, false) :: back →
      ∃ inside rest, char :: back.text = inside ++ '\x60' :: rest ∧ '\n' ∉ inside)
    ?_ ?_ ?_ before text front whole
  · intro before front whole
    simp [codeVeil, Text.scan] at whole
  · intro before other rest missed ih front whole
    rw [codeVeil_of_none missed] at whole
    cases front with
    | nil => simp at whole
    | cons stroke front => exact ih front (List.cons.inj whole).2
  · intro before taken left isSpan ih front whole
    rw [codeVeil_of_isSpan isSpan] at whole
    rcases append_eq_append_cons whole with ⟨more, takenEq, rfl⟩ | ⟨more, _, leftEq⟩
    · obtain ⟨init, tail, rfl, _, tailEq⟩ := List.map_eq_append_iff.mp takenEq
      obtain ⟨own, others, rfl, same, rfl⟩ := List.map_eq_cons_iff.mp tailEq
      obtain rfl : own = char := congrArg Prod.fst same
      have unbroken := noFeed_of_isSpan isSpan
      obtain ⟨body, spanEq, _⟩ := isSpan
      have last : (own :: others).getLast? = some '\x60' := by
        have final := congrArg List.getLast? spanEq
        rw [List.getLast?_append_of_ne_nil _ (by simp), ← List.cons_append,
          List.getLast?_concat] at final
        exact final
      obtain ⟨inside, insideEq⟩ := List.getLast?_eq_some_iff.mp last
      refine ⟨inside, left, ?_, fun feed => unbroken ?_⟩
      · rw [Veiled.text_append, Veiled.text_map, text_codeVeil, ← List.cons_append, insideEq]
        simp
      · rw [insideEq]
        simp [feed]
    · exact ih more leftEq

theorem shown_of_codeVeil {prose : List Char} {above row below : Veiled}
    (whole : codeVeil none prose = above ++ (row ++ below)) (free : '\x60' ∉ row.text)
    (stop : below = [] ∨ row.text.getLast? = some '\n') : ∀ stroke ∈ row, stroke.2 = true := by
  intro stroke member
  by_contra hidden
  obtain ⟨char, shown⟩ := stroke
  obtain rfl : shown = false := by simpa using hidden
  obtain ⟨front, back, rfl⟩ := List.append_of_mem member
  have cut : codeVeil none prose = (above ++ front) ++ (char, false) :: (back ++ below) := by
    simpa using whole
  obtain ⟨inside, rest, ends, unbroken⟩ := exists_tick_of_codeVeil cut
  rw [Veiled.text_append, Veiled.text_cons] at free stop
  rw [Veiled.text_append, ← List.cons_append] at ends
  rcases append_eq_append_cons ends with ⟨more, inRow, _⟩ | ⟨more, rfl, later⟩
  · exact free (List.mem_append_right _ (by simp [inRow]))
  · rcases stop with rfl | ended
    · simp at later
    · rw [List.getLast?_append_of_ne_nil _ (by simp)] at ended
      exact unbroken (List.mem_append_left _ (List.mem_of_getLast? ended))

end Review

namespace Link

theorem text_refrozen (painted : Painted) : (refrozen painted).text = painted.text := by
  have kept := (Document.keepsFrozen_run .links (Piece.ofPaint painted)).text_eq
  rw [Piece.paint_ofPaint] at kept
  rw [refrozen, ← paint_freeze]
  exact kept

theorem address_of_letterless {text : List Char} (letterless : ∀ char ∈ text, char.isAlpha = false)
    (before : Option Char) : address before text = none := by
  have unopened : afterScheme? text = none := by
    cases text with
    | nil => rfl
    | cons first rest =>
        rw [afterScheme?, letterless first (by simp)]
        rfl
  rw [address, unopened]

theorem paint_marking_of_letterless {text : List Char}
    (letterless : ∀ char ∈ text, char.isAlpha = false) (before after : Option Char) :
    Piece.paint (marking address .link before text after) = Painted.outside text := by
  apply paint_substitution_of_missed
  intro previous char rest suffix
  exact address_of_letterless (fun other member => letterless other (suffix.subset member)) previous

theorem refrozen_of_letterless {line : List Char} (single : Text.lines line = [line])
    (mixed : isBlob (Text.strip line) = false) (letterless : ∀ char ∈ line, char.isAlpha = false) :
    refrozen (Painted.outside line) = Painted.outside line := by
  have filled : line ≠ [] := by
    rintro rfl
    simp [Text.lines] at single
  have pieces := Painted.ofPaint_outside filled
  have own := paint_marking_of_letterless letterless none none
  rw [refrozen, pieces]
  simpa [freezeRegion, Region.outside, Piece.isOutside, single, freezeLine, mixed] using own

theorem ReadsAsLink.onLine {text : List Char} (reads : ReadsAsLink text) : '\n' ∉ text :=
  reads.elim IsWholeLink.onLine GoesOn.onLine

/-- No line feed stands between two signs of a text that is a link once it is stripped. -/
theorem ReadsAsLink.not_parted {text inside : List Char} {first last : Char}
    (reads : ReadsAsLink (Text.strip text)) (solidFirst : Text.isBlank first = false)
    (solidLast : Text.isBlank last = false) (feed : '\n' ∈ inside) :
    ¬first :: inside ++ [last] <:+: text := by
  intro found
  obtain ⟨left, right, parts, leftBlank, rightBlank⟩ := Text.exists_strip text
  rw [parts, List.append_assoc] at found
  have kept := Text.infix_of_blanks leftBlank rightBlank solidFirst solidLast found
  exact reads.onLine (kept.subset (by simp [feed]))

end Link

namespace Document

theorem not_isBlob_of_delimiter {painted row : Painted} (member : row ∈ rows painted)
    (delimiter : DisplayMath.isDelimiterLine row.text = true) :
    Link.isBlob (Text.strip painted.text) = false := by
  by_contra blob
  have reads := Link.isBlob_iff.mp (by simpa using blob)
  obtain ⟨sign, inStrip, solid, notDollar, notFeed⟩ : ∃ sign ∈ Text.strip painted.text,
      Text.isBlank sign = false ∧ sign ≠ '$' ∧ sign ≠ '\n' := by
    rcases reads.exists_mark with scheme | square
    · exact ⟨':', scheme.subset (by simp), by decide⟩
    · exact ⟨'[', square, by decide⟩
  obtain ⟨above, below, split⟩ := List.append_of_mem member
  obtain ⟨parts, areRows⟩ := rows_around split
  have whole : painted.text = Row.text above.flatten ++ (row.text ++ Row.text below.flatten) := by
    conv_lhs => rw [parts]
    rw [Painted.text_append, Painted.text_append]
    rfl
  -- The sign stands in the text, but a line feed parts it from the dollars.
  have inText := (Text.strip_isInfix painted.text).subset inStrip
  rw [whole, List.mem_append, List.mem_append] at inText
  have dollar : '$' ∈ row.text :=
    List.count_pos_iff.mp (by simp [DisplayMath.count_of_isDelimiterLine delimiter])
  obtain ⟨front, back, rowEq⟩ := List.append_of_mem dollar
  rcases inText with inAbove | inRow | inBelow
  · obtain ⟨before, after, aboveEq⟩ := List.append_of_mem inAbove
    have ended := areRows.ends_above.resolve_left (by rintro rfl; simp [Row.text] at inAbove)
    rw [aboveEq, List.getLast?_append_of_ne_nil _ (by simp)] at ended
    have feed : '\n' ∈ after :=
      (List.mem_cons.mp (List.mem_of_getLast? ended)).resolve_left notFeed.symm
    refine reads.not_parted solid (by decide : Text.isBlank '$' = false)
      (List.mem_append_left front feed) ⟨before, back ++ Row.text below.flatten, ?_⟩
    rw [whole, aboveEq, rowEq]
    simp
  · rcases DisplayMath.mem_of_isDelimiterLine delimiter sign inRow with same | blank
    · exact notDollar same
    · simp [solid] at blank
  · obtain ⟨before, after, belowEq⟩ := List.append_of_mem inBelow
    have ended : row.text.getLast? = some '\n' :=
      areRows.ends_row.resolve_left (by rintro rfl; simp [Row.text] at inBelow)
    rw [rowEq, List.getLast?_append_of_ne_nil _ (by simp)] at ended
    have feed : '\n' ∈ back :=
      (List.mem_cons.mp (List.mem_of_getLast? ended)).resolve_left (by decide)
    refine reads.not_parted (by decide : Text.isBlank '$' = false) solid
      (List.mem_append_left before feed) ⟨Row.text above.flatten ++ front, after, ?_⟩
    rw [whole, belowEq, rowEq]
    simp

theorem text_linked (prose : List Char) : Painted.text (Piece.paint (linked prose)) = prose := by
  have code := (keepsFrozen_run .code [Region.outside prose]).text_eq
  have links := (keepsFrozen_run .links (InlineCode.split [Region.outside prose])).text_eq
  rw [Painted.paint_outside, Painted.text_outside] at code
  unfold linked
  split
  · simp [Region.link]
  · exact links.trans code

theorem outside_of_codeSpans {prose : List Char} {row : Painted}
    (member : row ∈ rows (Piece.paint (InlineCode.split [Region.outside prose])))
    (free : '\x60' ∉ row.text) : row = Painted.outside row.text := by
  have relabelled := @rows_map Bool RegionKind
    (fun stroke => (stroke.1, if stroke.2 then .outside else .code)) (fun _ => rfl)
    (Review.codeVeil none prose)
  rw [paint_codeSpans, relabelled] at member
  obtain ⟨veiled, inVeiled, rfl⟩ := List.mem_map.mp member
  obtain ⟨above, below, split⟩ := List.append_of_mem inVeiled
  obtain ⟨whole, areRows⟩ := rows_around split
  have textEq : Painted.text (veiled.map fun stroke =>
      (stroke.1, if stroke.2 then RegionKind.outside else .code)) = Veiled.text veiled := by
    simp [Painted.text, Veiled.text, Function.comp_def]
  rw [textEq] at free
  have shown := Review.shown_of_codeVeil whole free
    (areRows.ends_row.imp_left fun isNil => by rw [isNil, List.flatten_nil])
  refine Painted.eq_outside fun stroke inRow => ?_
  obtain ⟨other, inVeil, rfl⟩ := List.mem_map.mp inRow
  rw [shown other inVeil]
  rfl

section Prose

variable {prose : List Char}
  (feeds : ∀ char ∈ prose, Text.isLineBreak char = true → char = '\n')

include feeds

theorem exists_refrozen_of_mem (mixed : Link.isBlob (Text.strip prose) = false) {row : Painted}
    (member : row ∈ rows (Piece.paint (linked prose))) :
    ∃ own : Painted, own ∈ rows (Piece.paint (InlineCode.split [Region.outside prose])) ∧
      Text.lines own.text = [own.text] ∧ row = Link.refrozen own := by
  have fused : Piece.IsFused (InlineCode.split [Region.outside prose]) := Piece.isFused_fuse _
  have textEq : Painted.text (Piece.paint (InlineCode.split [Region.outside prose])) = prose := by
    have code := (keepsFrozen_run .code [Region.outside prose]).text_eq
    rw [Painted.paint_outside, Painted.text_outside] at code
    exact code
  rw [linked, mixed, if_neg (by simp)] at member
  generalize InlineCode.split [Region.outside prose] = regions at fused textEq member ⊢
  have areLines : Text.AreLines ((rows (Piece.paint regions)).map Painted.text) := by
    have textRows := map_text_rows (Piece.paint regions)
    rw [← Painted.text, textEq, ← Text.lines_eq_physicalLines feeds] at textRows
    exact textRows ▸ Text.areLines_lines prose
  have rowByRow : Piece.paint (Link.freeze regions) =
      ((rows (Piece.paint regions)).map Link.refrozen).flatten := by
    rw [← List.flatMap_def]
    exact Link.paint_freeze_of_lines fused (flatten_rows _) areLines
  have areRows : AreRows ((rows (Piece.paint regions)).map Link.refrozen) := by
    have own := areRows_rows (Piece.paint regions)
    refine ⟨fun row member => ?_, ?_⟩
    · obtain ⟨other, inRows, rfl⟩ := List.mem_map.mp member
      obtain ⟨filled, isRow⟩ := own.isRow other inRows
      have same : Row.text (Link.refrozen other) = Row.text other := Link.text_refrozen other
      refine ⟨?_, same ▸ isRow⟩
      intro isNil
      rw [isNil] at same
      exact filled (List.map_eq_nil_iff.mp same.symm)
    · refine List.pairwise_map.mpr (own.ended.imp fun {first _} ended => ?_)
      exact (congrArg List.getLast? (Link.text_refrozen first)).trans ended
  rw [rowByRow, rows_flatten areRows] at member
  obtain ⟨own, inRows, rfl⟩ := List.mem_map.mp member
  exact ⟨own, inRows, areLines.single _ (List.mem_map_of_mem inRows), rfl⟩

theorem outside_of_delimiter {row : Painted} (member : row ∈ rows (Piece.paint (linked prose)))
    (delimiter : DisplayMath.isDelimiterLine row.text = true) : row = Painted.outside row.text := by
  have mixed := not_isBlob_of_delimiter member delimiter
  rw [text_linked] at mixed
  obtain ⟨own, inRows, single, rfl⟩ := exists_refrozen_of_mem feeds mixed member
  rw [Link.text_refrozen] at delimiter ⊢
  have signs := DisplayMath.mem_of_isDelimiterLine delimiter
  have outside := outside_of_codeSpans inRows fun tick =>
    absurd (signs '\x60' tick) (by decide)
  have letterless : ∀ char ∈ own.text, char.isAlpha = false := by
    intro char inOwn
    by_contra letter
    have solid := Text.not_isBlank_of_isAlphanum
      (by simp [Char.isAlphanum, letter] : char.isAlphanum = true)
    rcases signs char inOwn with rfl | blank
    · exact letter (by decide)
    · simp [solid] at blank
  have stripped : Text.strip own.text = ['$', '$'] := by
    simpa [DisplayMath.isDelimiterLine] using delimiter
  have mixedLine : Link.isBlob (Text.strip own.text) = false := by
    rw [stripped]
    decide
  conv_lhs => rw [outside, Link.refrozen_of_letterless single mixedLine letterless]

/-- A delimiter line is one too in the text that is searched for display math, and no other line is. -/
theorem isDelimiterLine_masked {row : Painted} (member : row ∈ rows (Piece.paint (linked prose))) :
    DisplayMath.isDelimiterLine (row.map DisplayMath.mask) =
      DisplayMath.isDelimiterLine row.text := by
  cases delimiter : DisplayMath.isDelimiterLine row.text with
  | true =>
      have outside := outside_of_delimiter feeds member delimiter
      have seen : row.map DisplayMath.mask = row.text := by
        conv_lhs => rw [outside]
        simp [Painted.outside, DisplayMath.mask, Function.comp_def]
      rw [seen, delimiter]
  | false =>
      by_contra masked
      rw [Bool.not_eq_false] at masked
      have signs := DisplayMath.mem_of_isDelimiterLine masked
      have seen : row.map DisplayMath.mask = row.text := by
        refine List.map_congr_left fun stroke inRow => ?_
        have sign := signs (DisplayMath.mask stroke) (List.mem_map_of_mem inRow)
        rw [DisplayMath.mask] at sign ⊢
        split at sign
        next kept => exact if_pos kept
        next => exact absurd sign (by decide)
      rw [seen, delimiter] at masked
      exact absurd masked (by decide)

theorem lines_masked : Text.lines (DisplayMath.masked (linked prose)) =
    (rows (Piece.paint (linked prose))).map (List.map DisplayMath.mask) := by
  have textEq := text_linked prose
  rw [DisplayMath.masked_eq]
  generalize Piece.paint (linked prose) = painted at textEq ⊢
  rw [Text.lines_eq_physicalLines, physicalLines_map]
  · intro stroke _
    rw [DisplayMath.mask]
    split
    next => rfl
    next frozen =>
      refine iff_of_false (by decide) fun feed => frozen (.inr ?_)
      rw [feed]
      rfl
  · intro char member isBreak
    obtain ⟨stroke, inPainted, rfl⟩ := List.mem_map.mp member
    rw [DisplayMath.mask] at isBreak ⊢
    split at isBreak
    next kept =>
      rw [if_pos kept]
      exact feeds stroke.1 (textEq ▸ List.mem_map_of_mem inPainted) isBreak
    next => exact absurd isBreak (by decide)

omit feeds in
theorem text_reclassify (found : List Span) (place : Nat → Nat) (painted : Painted) :
    Painted.text (painted.mapIdx fun index => DisplayMath.reclassify found (place index)) =
      painted.text := by
  refine List.ext_getElem? fun index => ?_
  rw [Painted.text, Painted.text, List.getElem?_map, List.getElem?_mapIdx, List.getElem?_map]
  cases painted[index]? with
  | none => rfl
  | some stroke => simp [Review.reclassify_eq]

section Row

variable {front back : List (Row RegionKind)} {row : Row RegionKind}
  (rowsEq : rows (Piece.paint (linked prose)) = front ++ row :: back)
  (delimiter : DisplayMath.isDelimiterLine row.text = true)

include rowsEq delimiter

theorem covers_of_delimiter {index : Nat} (bound : index < row.length) :
    DisplayMath.covers (DisplayMath.spans (DisplayMath.masked (linked prose)))
        (index + front.flatten.length) = true ↔
      DisplayMath.IsPaired (front.map Row.text) (back.map Row.text) := by
  have masked (other : Row RegionKind) (member : other ∈ front ++ row :: back) :
      DisplayMath.isDelimiterLine (other.map DisplayMath.mask) =
        DisplayMath.isDelimiterLine other.text :=
    isDelimiterLine_masked feeds (rowsEq ▸ member)
  have above : (front.map (List.map DisplayMath.mask)).countP DisplayMath.isDelimiterLine =
      (front.map Row.text).countP DisplayMath.isDelimiterLine := by
    rw [List.countP_map, List.countP_map]
    exact List.countP_congr fun other member => by
      rw [Function.comp_apply, masked other (by simp [member]), Function.comp_apply]
  have below : (∃ other ∈ back.map (List.map DisplayMath.mask),
      DisplayMath.isDelimiterLine other = true) ↔
        ∃ other ∈ back.map Row.text, DisplayMath.isDelimiterLine other = true := by
    simp only [List.mem_map, exists_exists_and_eq_and]
    exact exists_congr fun other => and_congr_right fun member => by
      rw [masked other (by simp [member])]
  have linesEq := lines_masked feeds
  rw [rowsEq, List.map_append, List.map_cons] at linesEq
  have size : (front.map (List.map DisplayMath.mask)).flatten.length = front.flatten.length := by
    rw [← List.map_flatten, List.length_map]
  have own := @DisplayMath.covers_spansFrom_iff 0 _ _ ((masked row (by simp)).trans delimiter) _ _
    (index + front.flatten.length) linesEq (by omega) (by rw [List.length_map]; omega)
  rw [DisplayMath.spans, own, DisplayMath.IsPaired, DisplayMath.IsPaired, above, below]

/-- A delimiter line becomes display math as a whole if it is paired, and else stays outside. -/
theorem reclassify_of_delimiter :
    (row.mapIdx fun index => DisplayMath.reclassify
      (DisplayMath.spans (DisplayMath.masked (linked prose))) (index + front.flatten.length)) =
        row.text.map (·, if DisplayMath.IsPaired (front.map Row.text) (back.map Row.text) then
          RegionKind.display else .outside) := by
  have free : ∀ stroke ∈ row, stroke.2 = .outside := by
    rw [outside_of_delimiter feeds (by simp [rowsEq]) delimiter]
    simp [Painted.outside]
  refine List.ext_getElem (by simp [Row.text]) fun index bound _ => ?_
  rw [List.length_mapIdx] at bound
  rw [List.getElem_mapIdx, List.getElem_map, Review.reclassify_eq, free _ (List.getElem_mem bound)]
  simp only [Row.text, List.getElem_map, true_and, covers_of_delimiter feeds rowsEq delimiter bound]

theorem onLine_of_delimiter (first : Nat) :
    Painted.onLine (first + front.length) first ((Piece.paint (linked prose)).mapIdx
        (DisplayMath.reclassify (DisplayMath.spans (DisplayMath.masked (linked prose))))) =
      row.text.map (·, if DisplayMath.IsPaired (front.map Row.text) (back.map Row.text) then
          RegionKind.display else .outside) := by
  obtain ⟨whole, areRows⟩ := rows_around rowsEq
  have marked := reclassify_of_delimiter feeds rowsEq delimiter
  generalize DisplayMath.spans (DisplayMath.masked (linked prose)) = found at marked ⊢
  rw [whole, List.mapIdx_append, List.mapIdx_append, marked]
  exact Painted.onLine_of_areRows areRows (text_reclassify found id front.flatten)
    (Painted.text_map _ _) (fun isNil => by rw [isNil]; rfl) first

end Row


omit feeds in
theorem forall_display_iff {text : List Char} {kind : RegionKind} {new : Painted}
    (related : List.Forall₂ IsInlined (text.map (·, kind)) new) (dollar : '$' ∈ text) :
    (∀ stroke ∈ new, stroke.1 ≠ '\n' → stroke.2 = .display) ↔ kind = .display := by
  obtain ⟨lengths, all⟩ := List.forall₂_iff_get.mp related
  rw [List.length_map] at lengths
  have inlined (index : Nat) (bound : index < text.length) :
      IsInlined (text[index], kind) new[index] := by
    simpa using all index (by simpa using bound) (by omega)
  constructor
  · intro shown
    obtain ⟨index, bound, char⟩ := List.mem_iff_getElem.mp dollar
    have own := inlined index bound
    rw [char] at own
    refine own.display_iff.mp (shown _ (List.getElem_mem _) ?_)
    rw [own.char]
    exact (by decide : '$' ≠ '\n')
  · intro display stroke member _
    obtain ⟨index, bound, rfl⟩ := List.mem_iff_getElem.mp member
    exact (inlined index (by omega)).display_iff.mpr display

/-- The regions of prose show a delimiter line as display math just if it is paired. -/
theorem shows_delimiter_iff {above below : List (List Char)} {line : List Char}
    (split : Text.physicalLines prose = above ++ line :: below)
    (delimiter : DisplayMath.isDelimiterLine line = true) (first : Nat) :
    Painted.IsDisplayAt (first + above.length) first (Piece.paint (proseRegions prose)) ↔
      DisplayMath.IsPaired above below := by
  have textRows := map_text_rows (Piece.paint (linked prose))
  rw [← Painted.text, text_linked, split] at textRows
  obtain ⟨front, rest, rowsEq, rfl, restEq⟩ := List.map_eq_append_iff.mp textRows
  obtain ⟨row, back, rfl, rfl, rfl⟩ := List.map_eq_cons_iff.mp restEq
  have related := Painted.forall₂_onLine (fun _ _ own => own.char) (forall₂_proseRegions prose)
    (first + front.length) first
  rw [onLine_of_delimiter feeds rowsEq delimiter first] at related
  have dollar : '$' ∈ row.text :=
    List.count_pos_iff.mp (by simp [DisplayMath.count_of_isDelimiterLine delimiter])
  rw [List.length_map, Painted.IsDisplayAt, forall_display_iff related dollar]
  by_cases paired : DisplayMath.IsPaired (front.map Row.text) (back.map Row.text)
  · simp [paired]
  · simp [paired]

end Prose

end Document

namespace Review

def delimiters (text : List Char) : Nat :=
  (Text.splitFeeds text).countP DisplayMath.isDelimiterLine

theorem delimiters_eq (text : List Char) :
    delimiters text = (Text.physicalLines text).countP DisplayMath.isDelimiterLine :=
  Text.countP_splitFeeds rfl DisplayMath.isDelimiterLine_feed text

theorem forall_numbered_iff {holds : Nat → List Char → Prop} {lines : List (List Char)} {first : Nat} :
    (∀ line ∈ numbered first lines, holds line.1 line.2) ↔
      ∀ above line below, lines = above ++ line :: below → holds (first + above.length) line := by
  induction lines generalizing first with
  | nil => simp [numbered]
  | cons own lines ih =>
      rw [numbered, List.forall_mem_cons, ih]
      constructor
      · rintro ⟨start, later⟩ above line below split
        cases above with
        | nil =>
            obtain ⟨rfl, rfl⟩ := List.cons.inj split
            exact start
        | cons other above =>
            have below := later above line below (List.cons.inj split).2
            rwa [List.length_cons, Nat.add_comm above.length, ← Nat.add_assoc]
      · intro all
        refine ⟨all [] own lines rfl, fun above line below split => ?_⟩
        have below := all (own :: above) line below (by rw [split]; rfl)
        rwa [List.length_cons, Nat.add_comm above.length, ← Nat.add_assoc] at below

/-- The delimiter lines between line feeds have the numbers of those that end with line feeds. -/
theorem forall_delimiter_iff {holds : Nat → Prop} {text : List Char} {first : Nat} :
    (∀ line ∈ numbered first (Text.splitFeeds text),
        DisplayMath.isDelimiterLine line.2 = true → holds line.1) ↔
      ∀ line ∈ numbered first (Text.physicalLines text),
        DisplayMath.isDelimiterLine line.2 = true → holds line.1 := by
  unfold Text.splitFeeds
  induction size : text.length using Nat.strong_induction_on generalizing text first with
  | _ count ih =>
      by_cases feed : '\n' ∈ text
      · obtain ⟨line, rest, rfl, free⟩ := List.eq_append_cons_of_mem feed
        have shorter : rest.length < count := by
          rw [← size]
          simp only [List.length_append, List.length_cons]
          omega
        rw [Text.splitAt_mark free, Text.physicalLines_feed free, numbered, numbered,
          List.forall_mem_cons, List.forall_mem_cons, DisplayMath.isDelimiterLine_feed,
          @ih rest.length shorter rest (first + 1) rfl]
      · rw [Text.splitAt_of_free feed]
        by_cases filled : text = []
        · subst filled
          refine iff_of_true (fun line member delimiter => ?_) (by simp [numbered, Text.physicalLines])
          obtain rfl : line = (first, []) := by simpa [numbered] using member
          have blank : DisplayMath.isDelimiterLine [] = true := delimiter
          exact absurd blank (by decide)
        · rw [Text.physicalLines_of_free filled feed]

/-- The regions of prose show all its delimiter lines as display math just if they are even in
number. -/
theorem shows_prose_iff {prose : List Char}
    (feeds : ∀ char ∈ prose, Text.isLineBreak char = true → char = '\n') (first : Nat) :
    (∀ line ∈ numbered first (Text.splitFeeds prose), DisplayMath.isDelimiterLine line.2 = true →
      Painted.IsDisplayAt line.1 first (Piece.paint (Document.proseRegions prose))) ↔
        delimiters prose % 2 = 0 := by
  rw [@forall_delimiter_iff (Painted.IsDisplayAt · first (Piece.paint (Document.proseRegions prose))),
    @forall_numbered_iff fun number line => DisplayMath.isDelimiterLine line = true →
      Painted.IsDisplayAt number first (Piece.paint (Document.proseRegions prose)),
    delimiters_eq, ← DisplayMath.forall_isPaired_iff]
  exact forall_congr' fun above => forall_congr' fun line => forall_congr' fun below =>
    forall_congr' fun split => forall_congr' fun delimiter =>
      Document.shows_delimiter_iff feeds split delimiter first

end Review

end DollarMath
