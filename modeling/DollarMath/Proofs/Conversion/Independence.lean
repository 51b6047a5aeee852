import DollarMath.Proofs.Conversion.Around
import DollarMath.Proofs.Conversion.LineEdits
import DollarMath.Proofs.Conversion.Steady
import DollarMath.Proofs.Document.Seams

/-!
What a conversion makes of the text around a block of fenced code does not depend on the block.
-/

namespace DollarMath

/-- Two documents that differ in one block of code only. If asked for, the block starts a line. -/
def Twins (lined : Prop) (first second : List Char) (one other : List Region) : Prop :=
  ∃ front back, Seam front back ∧ (lined → StartsLine (Text.lastOr none front.text)) ∧
    one = around front first back ∧ other = around front second back

/-- The line end of a document is judged by the text before a block of code, as long as the block
has no carriage return in it. -/
theorem lineEnding_around {front back : Painted} (seam : Seam front back) {block : List Char}
    (fenced : Fence.IsFenced block) (plain : '\r' ∉ block) :
    lineEnding (Piece.join (around front block back)) = lineEnding front.text := by
  rw [join_around, List.append_assoc]
  by_cases above : '\n' ∈ front.text
  · obtain ⟨line, rest, split, free⟩ := List.eq_append_cons_of_mem above
    rw [split, List.append_assoc, List.cons_append, lineEnding_of_split free,
      lineEnding_of_split free]
  · rw [lineEnding_of_free above]
    have ended {line : List Char} (filled : line ≠ []) (free : '\n' ∉ line) (inBlock : line ⊆ block)
        (rest : List Char) : lineEnding (front.text ++ (line ++ '\n' :: rest)) = ['\n'] := by
      rw [← List.append_assoc, lineEnding_of_split (by simp [above, free]),
        List.getLast?_append_of_ne_nil _ filled, if_neg]
      exact fun last => plain (inBlock (List.mem_of_getLast? last))
    by_cases inside : '\n' ∈ block
    · obtain ⟨line, rest, split, free⟩ := List.eq_append_cons_of_mem inside
      have filled : line ≠ [] := by
        rintro rfl
        obtain ⟨char, head, fence⟩ := fenced.head
        rw [split, List.nil_append, List.head?_cons, Option.some.injEq] at head
        rw [← head] at fence
        exact absurd fence (by decide)
      have whole : block ++ back.text = line ++ '\n' :: (rest ++ back.text) := by simp [split]
      rw [whole]
      exact ended filled free (by simp [split]) _
    · cases back with
      | nil =>
          refine lineEnding_of_free ?_
          simp [above, inside]
      | cons stroke back =>
          obtain ⟨char, kind⟩ := stroke
          obtain rfl : char = '\n' := (seam.starts _ rfl).1
          exact ended fenced.ne_nil inside (List.Subset.refl _) _

section passes

variable {stage : Stage} {lined : Prop} {first second : List Char} {one other : List Region}
  {revise : Revision} {skip : Region → Bool}

theorem alike_heads (fenced : Fence.IsFenced first) (fenced' : Fence.IsFenced second) :
    Alike first.head? second.head? :=
  .inr ⟨fenced.head, fenced'.head⟩

theorem alike_lasts (fenced : Fence.IsFenced first) (fenced' : Fence.IsFenced second) :
    Alike first.getLast? second.getLast? :=
  .inr ⟨fenced.getLast, fenced'.getLast⟩

/-- A pass that revises the text before and after two blocks to the same texts keeps twins. -/
theorem Seam.twins (stage : Stage) {front back : Painted} (seam : Seam front back)
    (lines : lined → StartsLine (Text.lastOr none front.text)) (fenced : Fence.IsFenced first)
    (fenced' : Fence.IsFenced second) {regions rest rest' : List Region}
    (above : Revised stage.Replaces first.head? none front (Piece.paint regions))
    (below : Revised stage.Replaces none first.getLast? back (Piece.paint rest))
    (same : Piece.paint rest' = Piece.paint rest) :
    Twins lined first second (Piece.fuse (regions ++ Region.code first :: rest))
      (Piece.fuse (regions ++ Region.code second :: rest')) := by
  have kept := seam.revised fenced above below
  refine ⟨_, _, kept, fun asked => above.keepsStartsLine id (lines asked),
    fuse_around fenced.ne_nil kept, ?_⟩
  rw [← same] at kept ⊢
  exact fuse_around fenced'.ne_nil kept

theorem reviseOutside_around (revise : Revision) (skip : Region → Bool) (front back : Painted)
    (block : List Char) (held : List (List Span)) :
    reviseOutside revise (around front block back) skip held =
      Piece.fuse (reviseUpTo revise skip block.head? none (Piece.ofPaint front) held ++
        Region.code block :: reviseUpTo revise skip none block.getLast? (Piece.ofPaint back)
          (held.drop ((Piece.ofPaint front).length + 1))) := by
  have nonempty := (Piece.isFused_ofPaint front).nonempty
  rw [reviseOutside, around, reviseOutsideAfter_append nonempty, reviseOutsideAfter, reviseUpTo_none,
    List.tail_drop]
  rfl

theorem mem_zip_front {α β : Type} {front back : List α} {held : List β} {pair : α × β}
    (member : pair ∈ front.zip held) : pair ∈ (front ++ back).zip held := by
  induction front generalizing held with
  | nil => simp at member
  | cons item front ih =>
      cases held with
      | nil => simp at member
      | cons spans held =>
          rcases List.mem_cons.mp member with rfl | later
          · exact List.mem_cons_self
          · exact List.mem_cons_of_mem _ (ih later)

theorem mem_zip_back {α β : Type} {front back : List α} {held : List β} {pair : α × β}
    (member : pair ∈ back.zip (held.drop front.length)) : pair ∈ (front ++ back).zip held := by
  induction front generalizing held with
  | nil => exact member
  | cons item front ih =>
      cases held with
      | nil => simp at member
      | cons spans held => exact List.mem_cons_of_mem _ (ih member)

/-- Where the text before the blocks is revised to the same, and so is the text after them, twins
stay twins. -/
theorem Seam.twins_reviseOutside {front back : Painted} (seam : Seam front back)
    (lines : lined → StartsLine (Text.lastOr none front.text)) (fenced : Fence.IsFenced first)
    (fenced' : Fence.IsFenced second) (follows : revise.Follows stage.Replaces)
    {held held' : List (List Span)}
    (ordered : ∀ pair ∈ (around front first back).zip held,
      Span.AreOrdered pair.1.text.length pair.2)
    (above : reviseUpTo revise skip second.head? none (Piece.ofPaint front) held' =
      reviseUpTo revise skip first.head? none (Piece.ofPaint front) held)
    (below : reviseUpTo revise skip none second.getLast? (Piece.ofPaint back)
        (held'.drop ((Piece.ofPaint front).length + 1)) =
      reviseUpTo revise skip none first.getLast? (Piece.ofPaint back)
        (held.drop ((Piece.ofPaint front).length + 1))) :
    Twins lined first second (reviseOutside revise (around front first back) skip held)
      (reviseOutside revise (around front second back) skip held') := by
  rw [reviseOutside_around, reviseOutside_around, above, below]
  refine seam.twins stage lines fenced fenced' ?_ ?_ rfl
  · have revised := @revised_reviseUpTo _ none first.head? _ follows skip _ held
      (Piece.isFused_ofPaint front).nonempty fun pair member => ordered pair (mem_zip_front member)
    rwa [Piece.paint_ofPaint] at revised
  · have revised := @revised_reviseUpTo _ first.getLast? none _ follows skip _
      (held.drop ((Piece.ofPaint front).length + 1)) (Piece.isFused_ofPaint back).nonempty
      fun pair member => ordered pair <| by
        have split : around front first back =
            (Piece.ofPaint front ++ [Region.code first]) ++ Piece.ofPaint back := by simp [around]
        rw [split]
        exact mem_zip_back (by simpa using member)
    rwa [Piece.paint_ofPaint] at revised

theorem Twins.reviseOutside (follows : revise.Follows stage.Replaces) (steady : revise.IsSteady)
    (fenced : Fence.IsFenced first) (fenced' : Fence.IsFenced second)
    (twins : Twins lined first second one other) :
    Twins lined first second (reviseOutside revise one) (reviseOutside revise other) := by
  obtain ⟨front, back, seam, lines, rfl, rfl⟩ := twins
  refine seam.twins_reviseOutside lines fenced fenced' follows (by simp) ?_ ?_
  · exact (reviseUpTo_congr steady (.refl none) (alike_heads fenced fenced') rfl).symm
  · exact (reviseUpTo_congr steady (alike_lasts fenced fenced') (.refl none) rfl).symm

theorem Twins.substitution {α : Type} {recognize : Text.Recognizer α} {build : Build α}
    (substitutes : Substitutes recognize build stage.Replaces) (steady : build.IsSteady)
    (fenced : Fence.IsFenced first) (fenced' : Fence.IsFenced second)
    (twins : Twins lined first second one other) :
    Twins lined first second
      (DollarMath.reviseOutside (DollarMath.substitution recognize build) one)
      (DollarMath.reviseOutside (DollarMath.substitution recognize build) other) :=
  twins.reviseOutside (follows_of_substitutes substitutes) (steady.substitution recognize) fenced
    fenced'

theorem Seam.exists_borders {front back : Painted} (seam : Seam front back) :
    ∃ above part feed below,
      Line.Borders (Piece.ofPaint front) (Piece.ofPaint back) above part feed below := by
  refine Line.exists_borders _ fun region head => ?_
  cases back with
  | nil => simp [Piece.ofPaint] at head
  | cons stroke back =>
      obtain ⟨feed, _, notDisplay⟩ := seam.starts stroke rfl
      obtain ⟨text, others, backEq⟩ := Piece.exists_ofPaint_cons stroke.1 stroke.2 back
      rw [show stroke = (stroke.1, stroke.2) from rfl, backEq, List.head?_cons,
        Option.some.injEq] at head
      rw [← head]
      exact ⟨by rw [← feed]; rfl, notDisplay⟩

theorem Twins.pass (follows : revise.Follows (Stage.Replaces .bareTokens))
    (steady : revise.IsSteady) (passes : revise.PassesFeed) (fenced : Fence.IsFenced first)
    (fenced' : Fence.IsFenced second) (twins : Twins lined first second one other) :
    Twins lined first second (BareTokens.pass revise one) (BareTokens.pass revise other) := by
  obtain ⟨front, back, seam, lines, rfl, rfl⟩ := twins
  obtain ⟨above, part, feed, below, borders⟩ := seam.exists_borders
  obtain ⟨heldFront, heldBack, size, later, held⟩ := borders.strayDollars
  obtain ⟨extra, opening, heldEq⟩ := held first fenced
  obtain ⟨extra', opening', heldEq'⟩ := held second fenced'
  have dropped (spans : List (List Span)) :
      (heldFront ++ [] :: spans).drop ((Piece.ofPaint front).length + 1) = spans := by
    simp [← size]
  refine seam.twins_reviseOutside lines fenced fenced' follows (ordered_strayDollars _) ?_ ?_
  · rw [around, around, heldEq, heldEq']
    refine reviseUpTo_congr steady (.refl none) (alike_heads fenced' fenced) ?_
    rw [← size, List.take_left, List.take_left]
  · rw [around, around, heldEq, heldEq', dropped, dropped]
    cases back with
    | nil => rfl
    | cons stroke back =>
        obtain ⟨text, others, backEq⟩ := Piece.exists_ofPaint_cons stroke.1 stroke.2 back
        rw [show stroke = (stroke.1, stroke.2) from rfl, backEq, (seam.starts stroke rfl).1]
        exact reviseUpTo_feed passes opening' opening later _ _ _

end passes

section edits

variable {lined : Prop} {first second : List Char} {edits : List (Nat × Edit)}

/-- The same edits of twins, none of them of the block, leave twins. -/
theorem Seam.twins_apply (stage : Stage) {front back : Painted} (seam : Seam front back)
    (lines : lined → StartsLine (Text.lastOr none front.text)) (fenced : Fence.IsFenced first)
    (fenced' : Fence.IsFenced second)
    (fits : EditsFit stage.Replaces edits (around front first back)) :
    Twins lined first second ((EditTable.ofList edits).apply (around front first back))
      ((EditTable.ofList edits).apply (around front second back)) := by
  have unedited : (EditTable.ofList edits).find? (Piece.ofPaint front).length = none := by
    rw [Option.eq_none_iff_forall_ne_some]
    intro own found
    obtain ⟨⟨edit, present⟩, _⟩ := EditTable.find?_ofList found
    exact absurd (fits _ _ _ rfl edit present).1 (by simp [Piece.isOutside, Region.code])
  have applied (block : List Char) :
      EditTable.applyFrom (EditTable.ofList edits) 0 (around front block back) =
        EditTable.applyFrom (EditTable.ofList edits) 0 (Piece.ofPaint front) ++
          Region.code block :: EditTable.applyFrom (EditTable.ofList edits)
            ((Piece.ofPaint front).length + 1) (Piece.ofPaint back) := by
    rw [around, applyFrom_append, EditTable.applyFrom, Nat.zero_add, unedited]
    rfl
  unfold EditTable.apply
  split
  · exact ⟨front, back, seam, lines, rfl, rfl⟩
  · rw [applied, applied]
    refine seam.twins stage lines fenced fenced' ?_ ?_ rfl
    · have above := @EditsFit.revised _ _ [] (Piece.ofPaint front)
        (Region.code first :: Piece.ofPaint back) fits
      rwa [Piece.paint_ofPaint, Piece.join_cons, Text.headOr_append, Region.code,
        Text.headOr_of_ne_nil fenced.ne_nil] at above
    · have below := @EditsFit.revised _ _ (Piece.ofPaint front ++ [Region.code first])
        (Piece.ofPaint back) [] (by simpa [around] using fits)
      rwa [Piece.paint_ofPaint, Piece.join_append, Text.lastOr_append, Piece.join_cons,
        Piece.join_nil, List.append_nil, Region.code, Text.lastOr_of_ne_nil fenced.ne_nil,
        List.length_append] at below

theorem Twins.promote (fenced : Fence.IsFenced first) (fenced' : Fence.IsFenced second)
    (plain : '\r' ∉ first) (plain' : '\r' ∉ second) {one other : List Region}
    (level : lined ∨ ('\n' ∈ first ↔ '\n' ∈ second)) (twins : Twins lined first second one other) :
    Twins lined first second (FormulaLines.promote one) (FormulaLines.promote other) := by
  obtain ⟨front, back, seam, lines, rfl, rfl⟩ := twins
  obtain ⟨above, part, feed, below, borders⟩ := seam.exists_borders
  obtain ⟨own, linesEq, straddles⟩ := borders.ofRegions_code fenced
  obtain ⟨own', linesEq', straddles'⟩ := borders.ofRegions_code fenced'
  have notDisplay : ∀ fragment ∈ feed, fragment.kind ≠ .display :=
    fun fragment member => (borders.feeds fragment member).notDisplay
  have same : (!first.contains '\n') = (!second.contains '\n') ∨ part = [] := by
    rcases level with asked | alike
    · right
      refine borders.part_eq_nil ?_
      rw [← Painted.text_paint, Piece.paint_ofPaint]
      exact lines asked
    · left
      simp [alike]
  unfold FormulaLines.promote
  rw [lineEnding_around seam fenced plain, lineEnding_around seam fenced' plain']
  dsimp only
  have edits : FormulaLines.editsFrom (lineEnding front.text) false
        (Line.ofRegions (around front second back)) =
      FormulaLines.editsFrom (lineEnding front.text) false
        (Line.ofRegions (around front first back)) := by
    rw [around, around, linesEq, linesEq']
    exact (FormulaLines.editsFrom_around straddles straddles' notDisplay same above below).symm
  rw [edits]
  refine seam.twins_apply .formulaLines lines fenced fenced' ?_
  exact fun _ _ _ whole _ member =>
    FormulaLines.fits_of_mem_editsFrom (isLineEnd_lineEnding front.text) whole member

theorem Twins.dropBlanks (fenced : Fence.IsFenced first) (fenced' : Fence.IsFenced second)
    {one other : List Region} (twins : Twins lined first second one other) :
    Twins lined first second (BlankLines.normalize one) (BlankLines.normalize other) := by
  obtain ⟨front, back, seam, lines, rfl, rfl⟩ := twins
  obtain ⟨above, part, feed, below, borders⟩ := seam.exists_borders
  obtain ⟨own, linesEq, straddles⟩ := borders.ofRegions_code fenced
  obtain ⟨own', linesEq', straddles'⟩ := borders.ofRegions_code fenced'
  have feeds : ∀ fragment ∈ feed, fragment.text = ['\n'] :=
    fun fragment member => (borders.feeds fragment member).textEq
  have edits : BlankLines.editsFrom none (Line.ofRegions (around front second back)) =
      BlankLines.editsFrom none (Line.ofRegions (around front first back)) := by
    rw [around, around, linesEq, linesEq']
    exact (BlankLines.editsFrom_around straddles straddles' feeds above below).symm
  unfold BlankLines.normalize
  rw [edits]
  refine seam.twins_apply .blankLines lines fenced fenced' ?_
  exact fun _ _ _ whole _ member =>
    BlankLines.fits_of_mem_editsFrom (isFused_around seam fenced.ne_nil) whole member

end edits

theorem Twins.lineEnding_eq {lined : Prop} {first second : List Char} {one other : List Region}
    (fenced : Fence.IsFenced first) (fenced' : Fence.IsFenced second) (plain : '\r' ∉ first)
    (plain' : '\r' ∉ second) (twins : Twins lined first second one other) :
    lineEnding (Piece.join other) = lineEnding (Piece.join one) := by
  obtain ⟨front, back, seam, _, rfl, rfl⟩ := twins
  rw [lineEnding_around seam fenced plain, lineEnding_around seam fenced' plain']

theorem Twins.run {stage : Stage} {lined : Prop} {first second : List Char}
    {one other : List Region} (fenced : Fence.IsFenced first) (fenced' : Fence.IsFenced second)
    (plain : '\r' ∉ first) (plain' : '\r' ∉ second)
    (level : stage = .formulaLines → lined ∨ ('\n' ∈ first ↔ '\n' ∈ second))
    (other_stage : stage ≠ .squares ∧ stage ≠ .parens)
    (twins : Twins lined first second one other) :
    Twins lined first second (stage.run one) (stage.run other) := by
  have lineEnd := isLineEnd_lineEnding (Piece.join one)
  have newline := twins.lineEnding_eq fenced fenced' plain plain'
  cases stage with
  | delimiters =>
      simp only [Stage.run, Delimiters.normalize, newline]
      have squares := twins.substitution (Delimiters.substitutes_escapedSquares lineEnd)
        (Delimiters.steady_toDisplay _) fenced fenced'
      have lines := squares.substitution (Delimiters.substitutes_bracketLines lineEnd)
        (Delimiters.steady_toDisplayAtLine _) fenced fenced'
      have parens := lines.substitution Delimiters.substitutes_escapedParens
        Delimiters.steady_toInline fenced fenced'
      exact parens.substitution Delimiters.substitutes_paddedDollars Delimiters.steady_toInline
        fenced fenced'
  | environments =>
      simp only [Stage.run, Environments.wrap, newline]
      exact twins.substitution (Environments.substitutes_environment lineEnd)
        (Environments.steady_toDisplay _) fenced fenced'
  | formulaLines => exact twins.promote fenced fenced' plain plain' (level rfl)
  | squares => exact absurd rfl other_stage.1
  | parens => exact absurd rfl other_stage.2
  | bareTokens =>
      have macros : Revision.Follows BareTokens.wrapMacros (Stage.Replaces .bareTokens) :=
        fun before text after =>
          (BareTokens.substitutes_rootOrFraction before after).revised before text after
      have degrees := twins.pass (follows_of_substitutes BareTokens.substitutes_degree)
        (BareTokens.steady_toDegree.substitution _) BareTokens.passesFeed_degree fenced fenced'
      have wrapped := degrees.pass macros BareTokens.steady_wrapMacros
        BareTokens.passesFeed_wrapMacros fenced fenced'
      exact wrapped.pass (follows_of_substitutes BareTokens.substitutes_script)
        (BareTokens.steady_toInline.substitution _) BareTokens.passesFeed_script fenced fenced'
  | blankLines => exact twins.dropBlanks fenced fenced'

theorem Twins.convertedRegions {lined : Prop} {first second : List Char}
    {stages : List Stage} {one other : List Region} (fenced : Fence.IsFenced first)
    (fenced' : Fence.IsFenced second) (plain : '\r' ∉ first) (plain' : '\r' ∉ second)
    (allowed : ∀ stage ∈ stages, (stage = .formulaLines → lined ∨ ('\n' ∈ first ↔ '\n' ∈ second)) ∧
      stage ≠ .squares ∧ stage ≠ .parens)
    (twins : Twins lined first second one other) :
    Twins lined first second (stages.foldl (fun regions stage => stage.run regions) one)
      (stages.foldl (fun regions stage => stage.run regions) other) := by
  induction stages generalizing one other with
  | nil => exact twins
  | cons stage stages ih =>
      obtain ⟨level, brackets⟩ := allowed stage (by simp)
      exact ih (fun other member => allowed other (by simp [member]))
        (twins.run fenced fenced' plain plain' level brackets)

namespace Document

def paintSegments (segments : List Segment) : Painted :=
  Piece.paint (segments.flatMap segmentRegions)

theorem seam_of_stands {front back : List Segment} {block : List Char}
    (stands : Fence.Stands front block back)
    (whole : Sealed false (paintSegments (front ++ ⟨.code, block⟩ :: back)))
    (plain : '\r' ∉ Piece.join back) : Seam (paintSegments front) (paintSegments back) := by
  unfold paintSegments at whole ⊢
  refine ⟨?_, ?_, ?_⟩
  · rw [List.flatMap_append, Piece.paint_append] at whole
    exact whole.of_append
  · rcases stands.above with rfl | ⟨init, prose, rfl, filled, ends⟩
    · simp [Painted.lastKind]
    · rw [List.flatMap_append, Piece.paint_append, Painted.lastKind_append]
      simpa [segmentRegions] using lastKind_proseRegions filled ends _
  · rcases stands.below with rfl | ⟨char, prose, rest, rfl, isReturn⟩
    · simp
    · obtain rfl : char = '\n' := by
        simp only [Text.isReturn, Bool.or_eq_true, beq_iff_eq] at isReturn
        refine isReturn.resolve_left ?_
        rintro rfl
        exact plain (by simp)
      obtain ⟨kind, strokes, painted, notCode, notDisplay⟩ := head_proseRegions prose
      rw [List.flatMap_cons, Piece.paint_append, segmentRegions]
      dsimp only
      rw [painted]
      intro stroke head
      obtain rfl := Option.some.inj head
      exact ⟨rfl, notCode, notDisplay⟩

theorem regions_of_split {text block : List Char} {front back : List Segment}
    (split : Fence.split text = front ++ ⟨.code, block⟩ :: back) (plain : '\r' ∉ Piece.join back) :
    Fence.IsFenced block ∧
      Seam (paintSegments front) (paintSegments back) ∧
      regions text = around (paintSegments front) block (paintSegments back) := by
  have stands := Fence.stands_of_split split
  have whole := sealed_regions text
  rw [regions, Piece.paint_fuse, split] at whole
  have seam := seam_of_stands stands whole plain
  refine ⟨stands.fenced, seam, ?_⟩
  rw [regions, split, paintSegments, paintSegments, ← fuse_around stands.fenced.ne_nil seam]
  simp [segmentRegions]

end Document

theorem Stage.enabled_ne {options : Options} (squares : options.squares = false)
    (parens : options.parens = false) {stage : Stage} (enabled : stage ∈ Stage.enabled options) :
    stage ≠ .squares ∧ stage ≠ .parens := by
  have isEnabled := (List.mem_filter.mp enabled).2
  constructor
  · rintro rfl
    exact absurd isEnabled (by simp [Stage.isEnabled, squares])
  · rintro rfl
    exact absurd isEnabled (by simp [Stage.isEnabled, parens])

/-- What a conversion makes of the text before and after a block of fenced code is the same
whatever the block holds, if no plain brackets are read and, where bare formula lines are wrapped,
the blocks agree on whether they hold a line feed or stand at the start of a physical line. -/
theorem convert_around_block {options : Options} (squares : options.squares = false)
    (parens : options.parens = false) {before after first second : List Char}
    (plain : ∀ text ∈ [before, after, first, second], '\r' ∉ text) {front back : List Segment}
    (oneSplit : Fence.split (before ++ first ++ after) = front ++ ⟨.code, first⟩ :: back)
    (otherSplit : Fence.split (before ++ second ++ after) = front ++ ⟨.code, second⟩ :: back)
    (place : (Piece.join front).length = before.length)
    (level : options.formulaLines = true → ('\n' ∈ first ↔ '\n' ∈ second) ∨
      before = [] ∨ before.getLast? = some '\n') :
    ∃ above below, convert options (before ++ first ++ after) = above ++ first ++ below ∧
      convert options (before ++ second ++ after) = above ++ second ++ below := by
  have spelled := Fence.join_split (before ++ first ++ after)
  rw [oneSplit, Piece.join_append, Piece.join_cons, List.append_assoc] at spelled
  obtain ⟨frontEq, rest⟩ := List.append_inj spelled place
  have backEq : Piece.join back = after := List.append_cancel_left rest
  have plainBack : '\r' ∉ Piece.join back := backEq ▸ plain after (by simp)
  obtain ⟨fenced, seam, oneEq⟩ := Document.regions_of_split oneSplit plainBack
  obtain ⟨fenced', _, otherEq⟩ := Document.regions_of_split otherSplit plainBack
  have twins : Twins (before = [] ∨ before.getLast? = some '\n') first second
      (Document.regions (before ++ first ++ after))
      (Document.regions (before ++ second ++ after)) := by
    refine ⟨_, _, seam, ?_, oneEq, otherEq⟩
    rw [Document.paintSegments, Painted.text_paint, Document.join_flatMap_segmentRegions, frontEq,
      ← Text.getLast?_or]
    rintro (rfl | feed)
    · exact .inl rfl
    · exact .inr (by simp [feed])
  have allowed : ∀ stage ∈ Stage.enabled options,
      (stage = .formulaLines → (before = [] ∨ before.getLast? = some '\n') ∨
        ('\n' ∈ first ↔ '\n' ∈ second)) ∧ stage ≠ .squares ∧ stage ≠ .parens := by
    intro stage enabled
    refine ⟨?_, Stage.enabled_ne squares parens enabled⟩
    rintro rfl
    exact (level (by simpa [Stage.isEnabled] using (List.mem_filter.mp enabled).2)).symm
  obtain ⟨above, below, _, _, one, other⟩ := Twins.convertedRegions fenced fenced'
    (plain first (by simp)) (plain second (by simp)) allowed twins
  refine ⟨above.text, below.text, ?_, ?_⟩
  · rw [convert, convertedRegions, one, join_around]
  · rw [convert, convertedRegions, other, join_around]

/-- Dollars, brackets and blank lines in a block change nothing outside it. -/
theorem convert_around_block_dollars : ∃ above below,
    convert { formulaLines := true } ("\\(a\\)\n".toList ++
        "\x60\x60\x60\n$$\n\x60\x60\x60".toList ++ "\n\n\n\nx=y".toList) =
      above ++ "\x60\x60\x60\n$$\n\x60\x60\x60".toList ++ below ∧
    convert { formulaLines := true } ("\\(a\\)\n".toList ++
        "\x60\x60\x60\n\n\n\\(\n\x60\x60\x60".toList ++ "\n\n\n\nx=y".toList) =
      above ++ "\x60\x60\x60\n\n\n\\(\n\x60\x60\x60".toList ++ below := by
  have plain : ∀ text ∈ ["\\(a\\)\n".toList, "\n\n\n\nx=y".toList,
      "\x60\x60\x60\n$$\n\x60\x60\x60".toList, "\x60\x60\x60\n\n\n\\(\n\x60\x60\x60".toList], '\r' ∉ text := by decide
  exact @convert_around_block { formulaLines := true } rfl rfl _ _ _ _ plain
    [⟨.prose, "\\(a\\)\n".toList⟩] [⟨.prose, "\n\n\n\nx=y".toList⟩] (by decide +kernel)
    (by decide +kernel) rfl fun _ => .inr (.inr rfl)

/-- On a physical line that goes on into the block it matters whether the block has a line feed:
the formula stands right below the display math in the first text, and below a line of code in the
second. -/
theorem convert_around_block_ne :
    (∀ text ∈ ["$$a$$\x0b".toList, "\nx=y".toList, "\x60\x60\x60\x0b\x60\x60\x60".toList,
      "\x60\x60\x60\n\x60\x60\x60".toList], '\r' ∉ text) ∧
    Fence.split ("$$a$$\x0b".toList ++ "\x60\x60\x60\x0b\x60\x60\x60".toList ++ "\nx=y".toList) =
      [⟨.prose, "$$a$$\x0b".toList⟩] ++ ⟨.code, "\x60\x60\x60\x0b\x60\x60\x60".toList⟩ ::
        [⟨.prose, "\nx=y".toList⟩] ∧
    Fence.split ("$$a$$\x0b".toList ++ "\x60\x60\x60\n\x60\x60\x60".toList ++ "\nx=y".toList) =
      [⟨.prose, "$$a$$\x0b".toList⟩] ++ ⟨.code, "\x60\x60\x60\n\x60\x60\x60".toList⟩ ::
        [⟨.prose, "\nx=y".toList⟩] ∧
    ¬ ∃ above below,
      convert { formulaLines := true }
          ("$$a$$\x0b".toList ++ "\x60\x60\x60\x0b\x60\x60\x60".toList ++ "\nx=y".toList) =
        above ++ "\x60\x60\x60\x0b\x60\x60\x60".toList ++ below ∧
      convert { formulaLines := true }
          ("$$a$$\x0b".toList ++ "\x60\x60\x60\n\x60\x60\x60".toList ++ "\nx=y".toList) =
        above ++ "\x60\x60\x60\n\x60\x60\x60".toList ++ below := by
  refine ⟨by decide, by decide +kernel, by decide +kernel, ?_⟩
  rintro ⟨above, below, one, other⟩
  have short : (convert { formulaLines := true }
      ("$$a$$\x0b".toList ++ "\x60\x60\x60\x0b\x60\x60\x60".toList ++ "\nx=y".toList)).length = 17 := by
    decide +kernel
  have long : (convert { formulaLines := true }
      ("$$a$$\x0b".toList ++ "\x60\x60\x60\n\x60\x60\x60".toList ++ "\nx=y".toList)).length = 23 := by
    decide +kernel
  rw [one] at short
  rw [other] at long
  simp only [List.length_append, String.length_toList] at short long
  have same : "\x60\x60\x60\x0b\x60\x60\x60".length = "\x60\x60\x60\n\x60\x60\x60".length := rfl
  omega

end DollarMath
