import DollarMath.Proofs.Conversion.Content
import DollarMath.Proofs.Document.Chunks
import DollarMath.Review

/-!
Fenced code after a conversion: every block stays as it is on lines of its own, so it is found again
unless a line of converted prose opens a fence of its own.
-/

namespace DollarMath

theorem not_isReturn_of_isIndent {char : Char} (indent : Text.isIndent char = true) :
    Text.isReturn char = false := by
  simp only [Text.isIndent, Bool.or_eq_true, beq_iff_eq] at indent
  rcases indent with rfl | rfl <;> decide

theorem not_isLineBreak_of_isIndent {char : Char} (indent : Text.isIndent char = true) :
    Text.isLineBreak char = false := by
  simp only [Text.isIndent, Bool.or_eq_true, beq_iff_eq] at indent
  rcases indent with rfl | rfl <;> decide

theorem not_isReturn_of_isDecimal {char : Char} (decimal : Text.isDecimal char = true) :
    Text.isReturn char = false := by
  by_contra ret
  simp only [Bool.not_eq_false, Text.isReturn, Bool.or_eq_true, beq_iff_eq] at ret
  rcases ret with rfl | rfl
  · exact absurd decimal (by decide)
  · exact absurd decimal (by decide)

namespace Stage.Replaces

variable {stage : Stage} {before after : Option Char} {text : List Char} {regions : List Region}

theorem isReturn_head_append {indent body : List Char} {char : Char}
    (indented : ∀ char ∈ indent, Text.isIndent char = true) (solid : IsSolid body)
    (head : (indent ++ body).head? = some char) : Text.isReturn char = false := by
  cases indent with
  | nil =>
      obtain ⟨first, firstEq, notReturn⟩ := solid.first
      rw [List.nil_append, firstEq, Option.some.injEq] at head
      exact head ▸ notReturn
  | cons first indent =>
      simp only [List.cons_append, List.head?_cons, Option.some.injEq] at head
      exact head ▸ not_isReturn_of_isIndent (indented first (by simp))

theorem isLineBreak_getLast_append {front body : List Char} {char : Char} (solid : IsSolid body)
    (last : (front ++ body).getLast? = some char) : Text.isLineBreak char = false := by
  obtain ⟨final, finalEq, notBlank⟩ := solid.last
  rw [List.getLast?_append_of_ne_nil _ solid.ne_nil, finalEq, Option.some.injEq] at last
  exact last ▸ Text.not_isLineBreak_of_not_isBlank notBlank

theorem starts {first : Char} (replaced : stage.Replaces before text regions after)
    (head : text.head? = some first) (isReturn : Text.isReturn first = true) :
    StartsLine before := by
  have other {char : Char} (same : some char = some first)
      (notReturn : Text.isReturn char = false) :
      StartsLine before := by
    rw [Option.some.inj same, isReturn] at notReturn
    exact absurd notReturn (by decide)
  cases replaced with
  | squares _ _ => exact other head (by decide)
  | squareLines _ _ atLine _ _ => exact atLine
  | parens _ => exact other head (by decide)
  | padded _ _ => exact other head (by decide)
  | environment _ command indented =>
      exact other rfl (isReturn_head_append indented command.isSolid head)
  | hangingEnvironment _ command _ indented =>
      exact other rfl (isReturn_head_append indented command.isSolid head)
  | formula _ _ _ atLine _ => exact atLine
  | squareSpan _ => exact other head (by decide)
  | parenSpan _ => exact other head (by decide)
  | degree decimal _ => exact other head (not_isReturn_of_isDecimal decimal)
  | token token =>
      obtain ⟨char, charEq, notReturn⟩ := token.isSolid.first
      exact other (charEq.symm.trans head) notReturn
  | blankLine _ atLine _ => exact atLine

/-- A text that ends with a line break is replaced only before the end of a line, or dropped as a
whole line. -/
theorem ends {last : Char} (replaced : stage.Replaces before text regions after)
    (final : text.getLast? = some last) (isBreak : Text.isLineBreak last = true) :
    (Text.isReturn last = false ∧ ∀ char, after = some char → Text.isReturn char = true) ∨
      (regions = [] ∧ StartsLine before ∧ (last = '\n' ∨ after = none)) := by
  have solid (notBreak : Text.isLineBreak last = false) :
      (Text.isReturn last = false ∧ ∀ char, after = some char → Text.isReturn char = true) ∨
        (regions = [] ∧ StartsLine before ∧ (last = '\n' ∨ after = none)) := by
    rw [isBreak] at notBreak
    exact absurd notBreak (by decide)
  have mark (front : List Char) (char : Char) (textEq : text = front ++ [char])
      (notBreak : Text.isLineBreak char = false) : Text.isLineBreak last = false := by
    rw [textEq, List.getLast?_concat, Option.some.injEq] at final
    exact final ▸ notBreak
  cases replaced with
  | @squares _ inside _ _ _ _ =>
      exact solid (mark (['\\', '['] ++ inside ++ ['\\']) ']' (by simp) (by decide))
  | @squareLines _ left lead inside trail right _ _ _ _ _ indented _ =>
      rw [List.getLast?_append_of_ne_nil _ (by simp)] at final
      rcases List.mem_cons.mp (List.mem_of_getLast? final) with rfl | member
      · exact solid (by decide)
      · exact solid (not_isLineBreak_of_isIndent (indented last (by simp [member])))
  | @parens inside _ _ _ =>
      exact solid (mark (['\\', '('] ++ inside ++ ['\\']) ')' (by simp) (by decide))
  | padded _ _ => exact solid (mark _ _ rfl (by decide))
  | environment _ command _ => exact solid (isLineBreak_getLast_append command.isSolid final)
  | hangingEnvironment _ command _ _ =>
      exact solid (isLineBreak_getLast_append command.isSolid final)
  | formula _ _ bare _ followed =>
      left
      rw [final, Option.all_some, Bool.not_eq_true'] at bare
      refine ⟨bare, fun char same => ?_⟩
      rw [same] at followed
      exact followed
  | squareSpan _ => exact solid (mark _ _ rfl (by decide))
  | parenSpan _ => exact solid (mark _ _ rfl (by decide))
  | @degree digit others sign _ _ _ signs =>
      have signSolid : ∃ char, sign.getLast? = some char ∧ Text.isLineBreak char = false := by
        rcases signs with rfl | rfl
        · exact ⟨'c', rfl, by decide⟩
        · exact ⟨'}', rfl, by decide⟩
      obtain ⟨char, charEq, notBreak⟩ := signSolid
      have notNil : sign ≠ [] := by
        rintro rfl
        simp at charEq
      rw [List.getLast?_append_of_ne_nil _ notNil, charEq, Option.some.injEq] at final
      exact solid (final ▸ notBreak)
  | token token =>
      obtain ⟨char, charEq, notBlank⟩ := token.isSolid.last
      rw [charEq, Option.some.injEq] at final
      exact solid (final ▸ Text.not_isLineBreak_of_not_isBlank notBlank)
  | blankLine _ atLine whole =>
      rw [final, Option.some.injEq] at whole
      exact .inr ⟨rfl, atLine, whole⟩

end Stage.Replaces

theorem Revised.head_isReturn {stage : Stage} {before after : Option Char} {old new : Painted}
    (revised : Revised stage.Replaces after before old new) (inLine : ¬ StartsLine before)
    (start : ∀ char, old.text.head? = some char → Text.isReturn char = true) :
    ∀ char, new.text.head? = some char → Text.isReturn char = true := by
  cases revised with
  | nil => exact start
  | keep _ => exact start
  | @replace _ text regions old new filled replaced _ =>
      obtain ⟨first, rest, rfl⟩ := List.exists_cons_of_ne_nil filled
      have isReturn := start first (by simp)
      exact absurd (replaced.starts rfl isReturn) inLine

/-- Whether a line start before a place is still one after some replacements, the line perhaps going
on to its end first. -/
def KeepsStart (old new next : Option Char) : Prop :=
  (Fence.AtLine old → Fence.AtLine new) ∨
    (¬ StartsLine old ∧ ∀ char, next = some char → Text.isReturn char = true)

theorem Revised.keepsStart {stage : Stage} {before before' after : Option Char} {old new : Painted}
    (revised : Revised stage.Replaces after before old new)
    (start : KeepsStart before before' (Text.headOr old.text after)) :
    KeepsStart (Text.lastOr before old.text) (Text.lastOr before' new.text) after := by
  induction revised generalizing before' with
  | nil => exact start
  | keep _ ih => exact ih (.inl id)
  | @replace before text regions old new filled replaced _ ih =>
      rw [Painted.text_append, Painted.text_append, Painted.text_outside, Painted.text_paint,
        Text.lastOr_append, Text.lastOr_append]
      refine ih ?_
      obtain ⟨init, last, rfl⟩ := (List.eq_nil_or_concat' text).resolve_left filled
      have lastEq : Text.lastOr before (init ++ [last]) = some last := by simp
      rw [lastEq]
      cases isBreak : Text.isLineBreak last with
      | false =>
          left
          intro atLine
          rw [atLine last rfl] at isBreak
          exact absurd isBreak (by decide)
      | true =>
          -- Text that ends a line is followed by the rest of a line end, or is dropped as a blank line.
          rcases replaced.ends List.getLast?_concat isBreak with
            ⟨notReturn, followed⟩ | ⟨rfl, atStart, _⟩
          · right
            refine ⟨?_, followed⟩
            rintro (absent | feed)
            · simp at absent
            · rw [Option.some.inj feed] at notReturn
              exact absurd notReturn (by decide)
          · rcases start with kept | ⟨inLine, _⟩
            · left
              intro _
              refine kept ?_
              rcases atStart with rfl | rfl
              · intro char present
                simp at present
              · intro char feed
                rw [← Option.some.inj feed]
                decide
            · exact absurd atStart inLine

theorem Revised.atLine {stage : Stage} {before : Option Char} {next : Char} {old new : Painted}
    (revised : Revised stage.Replaces (some next) before old new)
    (inLine : Text.isReturn next = false) (start : Fence.AtLine (Text.lastOr before old.text)) :
    Fence.AtLine (Text.lastOr before new.text) := by
  have kept := @Revised.keepsStart _ _ before _ _ _ revised (.inl id)
  rcases kept with kept | ⟨_, followed⟩
  · exact kept start
  · rw [followed next rfl] at inLine
    exact absurd inLine (by decide)

/-- What a segment may become in a conversion: code stays, and prose keeps its content. -/
structure Becomes (marks : List Char) (old new : Segment) : Prop where
  kind : new.kind = old.kind
  code : old.kind = .code → new.text = old.text
  prose : SameContent marks old.text new.text
  empty : old.text = [] → new.text = []

namespace Becomes

theorem refl (marks : List Char) (segment : Segment) : Becomes marks segment segment :=
  ⟨rfl, fun _ => rfl, .refl _ _, id⟩

theorem trans {marks : List Char} {first second third : Segment}
    (left : Becomes marks first second) (right : Becomes marks second third) :
    Becomes marks first third :=
  ⟨right.kind.trans left.kind,
    fun isCode => (right.code (left.kind.trans isCode)).trans (left.code isCode),
    left.prose.trans right.prose, fun isNil => right.empty (left.empty isNil)⟩

end Becomes

theorem forall₂_becomes_trans {marks : List Char} {first second third : List Segment}
    (left : List.Forall₂ (Becomes marks) first second)
    (right : List.Forall₂ (Becomes marks) second third) :
    List.Forall₂ (Becomes marks) first third := by
  induction left generalizing third with
  | nil => exact right
  | cons head _ ih =>
      cases right with
      | cons next rest => exact .cons (head.trans next) (ih rest)

theorem Revised.chunks {stage : Stage} {marks : List Char} {before : Option Char}
    {front new : Painted} {chunks : Chunks}
    (revised : Revised stage.Replaces none before (chunks.paint front) new)
    (delimiters : delimiterMarks ⊆ marks)
    (braced : stage = .bareTokens → braces ⊆ marks)
    (framed : Fence.Framed (Text.lastOr before front.text) chunks.parts) :
    ∃ front' chunks', new = Chunks.paint front' chunks' ∧
      Fence.Framed (Text.lastOr before front'.text) (Chunks.parts chunks') ∧
      (¬ StartsLine before → (∀ char, front.text.head? = some char → Text.isReturn char = true) →
        ∀ char, front'.text.head? = some char → Text.isReturn char = true) ∧
      List.Forall₂ (Becomes marks) (Fence.assemble front.text chunks.parts)
        (Fence.assemble front'.text (Chunks.parts chunks')) := by
  have becomes {old new : Painted} {before after : Option Char}
      (pass : Revised stage.Replaces after before old new) :
      Becomes marks ⟨.prose, old.text⟩ ⟨.prose, new.text⟩ := by
    refine ⟨rfl, by simp, pass.sameContent delimiters braced, fun unpainted => ?_⟩
    have empty : old = [] := List.map_eq_nil_iff.mp unpainted
    rw [empty] at pass
    simp [pass.of_nil]
  induction chunks generalizing before front new with
  | nil =>
      rw [Chunks.paint_nil] at revised
      exact ⟨new, [], by simp, trivial, revised.head_isReturn, .cons (becomes revised) .nil⟩
  | cons chunk chunks ih =>
      obtain ⟨block, prose⟩ := chunk
      have isBlock := framed.2.1
      rw [Chunks.paint_cons] at revised
      -- The block is frozen, so it cuts the revision, and the prose after it starts with its line end.
      obtain ⟨front', back', rfl, first, second⟩ := revised.split_frozen
        (by simpa using isBlock.ne_nil) (by simp)
      rw [Painted.text_append, Painted.text_map, Text.lastOr_append,
        Text.lastOr_of_ne_nil isBlock.ne_nil] at second
      rw [Painted.text_map, Text.headOr_of_ne_nil isBlock.ne_nil] at first
      obtain ⟨prose', chunks', rfl, framed', head', becomes'⟩ := ih second framed.2.2.2
      obtain ⟨next, nextEq, nextFence⟩ := isBlock.head
      obtain ⟨last, lastEq, lastFence⟩ := isBlock.getLast
      have notReturn : Text.isReturn next = false :=
        Text.not_isReturn_of_not_isLineBreak (Fence.not_isLineBreak_of_isFenceChar nextFence)
      have inLine : ¬ StartsLine block.getLast? := by
        rw [lastEq]
        rintro (absent | feed)
        · simp at absent
        · rw [Option.some.inj feed] at lastFence
          exact absurd lastFence (by decide)
      rw [nextEq] at first
      refine ⟨front', (block, prose') :: chunks', by simp, ?_, first.head_isReturn, ?_⟩
      · exact ⟨first.atLine notReturn framed.1, isBlock, head' inLine framed.2.2.1, framed'⟩
      · exact .cons (becomes first) (.cons (.refl _ _) becomes')

def codeTexts (segments : List Segment) : List (List Char) :=
  (segments.filter (·.kind == .code)).map Piece.text

theorem codeTexts_eq_of_becomes {marks : List Char} {old new : List Segment}
    (becomes : List.Forall₂ (Becomes marks) old new) : codeTexts new = codeTexts old := by
  unfold codeTexts
  induction becomes with
  | nil => rfl
  | @cons first second _ _ head _ ih =>
      cases isCode : first.kind with
      | code => simp [head.kind, isCode, head.code isCode, ih]
      | prose => simp [head.kind, isCode, ih]

theorem codeTexts_fuse_assemble {before : Option Char} {front : List Char} {parts : Fence.Parts}
    (framed : Fence.Framed before parts) :
    codeTexts (Piece.fuse (Fence.assemble front parts)) =
      codeTexts (Fence.assemble front parts) := by
  unfold codeTexts
  rw [Fence.fuse_assemble framed, List.filter_filter, Fence.assemble, List.filter_cons,
    List.filter_cons]
  simp only [beq_iff_eq, reduceCtorEq, Bool.and_eq_true, false_and, if_false]
  induction parts generalizing before with
  | nil => rfl
  | cons part parts ih =>
      obtain ⟨block, prose⟩ := part
      have own := List.isEmpty_eq_false_iff.mpr framed.2.1.ne_nil
      have rest := ih framed.2.2.2
      simp [own, rest]

theorem exists_becomes_filter {marks : List Char} {old new : List Segment}
    (becomes : List.Forall₂ (Becomes marks) old new) :
    ∃ kept, List.Forall₂ (Becomes marks) (old.filter (!·.text.isEmpty)) kept ∧
      Piece.paint kept = Piece.paint new := by
  induction becomes with
  | nil => exact ⟨[], .nil, rfl⟩
  | @cons first second _ _ head _ ih =>
      obtain ⟨kept, rest, same⟩ := ih
      rw [List.filter_cons]
      split
      next => exact ⟨second :: kept, .cons head rest, by simp [same]⟩
      next empty =>
        refine ⟨kept, rest, ?_⟩
        rw [Piece.paint_cons, head.empty (by simpa using empty), same]
        rfl

theorem staysShut_congr {first second : List Segment}
    (same : Piece.paint first = Piece.paint second) :
    Fence.StaysShut first ↔ Fence.StaysShut second := by
  unfold Fence.StaysShut
  rw [← Piece.map_fst_paint first, ← Piece.map_fst_paint second, same]

theorem fuse_congr {first second : List Segment} (same : Piece.paint first = Piece.paint second) :
    Piece.fuse first = Piece.fuse second := by
  refine (Piece.isFused_fuse _).eq_of_paint_eq (Piece.isFused_fuse _) ?_
  rw [Piece.paint_fuse, Piece.paint_fuse, same]

theorem Options.delimiterMarks_subset (options : Options) :
    delimiterMarks ⊆ options.marks := by
  unfold marks
  split
  · decide
  · decide

theorem Options.braces_subset {options : Options} {stage : Stage}
    (enabled : stage.isEnabled options = true) :
    stage = .bareTokens → braces ⊆ options.marks := by
  rintro rfl
  have bare : options.bareTokens = true := enabled
  rw [marks, bare]
  decide

/-- A conversion takes the blocks of a document and the prose between them to the same blocks, on
lines of their own, and converted prose. -/
theorem exists_converted_chunks (options : Options) (text : List Char) :
    ∃ front parts front' parts', Fence.split text = Piece.fuse (Fence.assemble front parts) ∧
      Fence.Framed (Text.lastOr none front) parts ∧
      convert options text = Piece.join (Fence.assemble front' parts') ∧
      Fence.Framed (Text.lastOr none front') parts' ∧
      List.Forall₂ (Becomes options.marks) (Fence.assemble front parts)
        (Fence.assemble front' parts') := by
  obtain ⟨front, parts, splitEq, framed, painted⟩ := Document.exists_chunks text
  have converted : ∃ front' chunks,
      Piece.paint (convertedRegions options text) = Chunks.paint front' chunks ∧
      Fence.Framed (Text.lastOr none front'.text) (Chunks.parts chunks) ∧
      List.Forall₂ (Becomes options.marks) (Fence.assemble front parts)
        (Fence.assemble front'.text (Chunks.parts chunks)) := by
    refine preserved_convertedRegions (motive := fun painted => ∃ front' chunks,
      painted = Chunks.paint front' chunks ∧
      Fence.Framed (Text.lastOr none front'.text) (Chunks.parts chunks) ∧
      List.Forall₂ (Becomes options.marks) (Fence.assemble front parts)
        (Fence.assemble front'.text (Chunks.parts chunks))) ?_ ?_
    · rintro stage enabled _ new revised ⟨front', chunks, rfl, framed', becomes⟩
      obtain ⟨next, others, rfl, nextFramed, _, step⟩ := revised.chunks
        options.delimiterMarks_subset (Options.braces_subset enabled) framed'
      exact ⟨next, others, rfl, nextFramed, forall₂_becomes_trans becomes step⟩
    · refine ⟨_, _, painted, ?_⟩
      rw [Painted.text_paint, Document.join_proseRegions, Chunks.parts_ofParts]
      exact ⟨framed, List.forall₂_same.mpr fun segment _ => .refl _ segment⟩
  obtain ⟨front', chunks, resultEq, framed', becomes⟩ := converted
  refine ⟨front, parts, front'.text, Chunks.parts chunks, splitEq, framed, ?_, framed', becomes⟩
  rw [convert, ← Painted.text_paint, resultEq, Chunks.text_paint]

/-- A conversion carries the blocks of fenced code byte for byte and in order, and changes prose
only between them. They are the blocks of the result, and no others are, just if no line of the
prose opens a fence that a later line closes. -/
theorem split_convert (options : Options) (text : List Char) :
    ∃ carried : List Segment,
      List.Forall₂ (Becomes options.marks) (Fence.split text) carried ∧
      Piece.join carried = convert options text ∧
      (Fence.split (convert options text) = Piece.fuse carried ↔ Fence.StaysShut carried) ∧
      (Fence.StaysShut carried →
        Review.codeBlocks (convert options text) = Review.codeBlocks text) := by
  obtain ⟨front, parts, front', parts', splitEq, framed, resultEq, framed', becomes⟩ :=
    exists_converted_chunks options text
  obtain ⟨carried, kept, same⟩ := exists_becomes_filter becomes
  rw [← Fence.fuse_assemble framed, ← splitEq] at kept
  have read := Fence.split_join_assemble framed'
  rw [← resultEq, ← fuse_congr same, ← staysShut_congr same] at read
  refine ⟨carried, kept, ?_, read, fun shut => ?_⟩
  · rw [resultEq, ← Piece.map_fst_paint, same, Piece.map_fst_paint]
  · show codeTexts (Fence.split (convert options text)) = codeTexts (Fence.split text)
    rw [read.mpr shut, fuse_congr same, codeTexts_fuse_assemble framed', splitEq,
      codeTexts_fuse_assemble framed, codeTexts_eq_of_becomes becomes]

/-- Code in escaped brackets becomes a line of its own, so that its backticks open a fence. -/
theorem codeBlocks_convert_ne :
    Review.codeBlocks (convert {} "\\[\x60\x60\x60\\]\n\x60\x60\x60\ncode\n\x60\x60\x60".toList) ≠
      Review.codeBlocks "\\[\x60\x60\x60\\]\n\x60\x60\x60\ncode\n\x60\x60\x60".toList := by
  decide +kernel

end DollarMath
