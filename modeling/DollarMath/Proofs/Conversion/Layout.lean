import DollarMath.Proofs.Conversion.FencedBlocks
import DollarMath.Proofs.Conversion.Stretches
import DollarMath.Proofs.Document.DisplayFree

/-!
How the stages lay out math. Dollars stand only around inline math, which does not end with a blank,
and on the two lines that a block of display math starts and ends with.
-/

namespace DollarMath

structure DisplayMath.Block where
  newline : List Char
  indent : List Char
  body : List Char

namespace DisplayMath.Block

def delimiter (block : Block) : List Char :=
  block.indent ++ ['$', '$']

def text (block : Block) : List Char :=
  block.delimiter ++ block.newline ++ block.indent ++ block.body ++ block.newline ++ block.delimiter

@[simp] theorem lastOr_text (block : Block) (before : Option Char) :
    Text.lastOr before block.text = some '$' := by
  simp [text, delimiter]

structure IsWhole (block : Block) : Prop where
  lineEnd : IsLineEnd block.newline
  indented : ∀ char ∈ block.indent, Text.isIndent char = true
  plain : '$' ∉ block.body

end DisplayMath.Block

structure InlineMath.IsBody (body : List Char) : Prop where
  plain : '$' ∉ body
  ended : ∃ last, body.getLast? = some last ∧ Text.isBlank last = false

/-- Math as the stages lay it out, between text without dollars, given the character before. -/
inductive Laid : (before : Option Char) → Painted → Prop
  | nil {before} : Laid before []
  | plain {before char kind rest} : kind ≠ .display → char ≠ '$' → Laid (some char) rest →
      Laid before ((char, kind) :: rest)
  | math {before body rest} : InlineMath.IsBody body → Laid (some '$') rest →
      Laid before (Piece.paint [Region.dollars body] ++ rest)
  | block {before rest} {block : DisplayMath.Block} : block.IsWhole → StartsLine before →
      (∀ char, rest.text.head? = some char → Text.isReturn char = true) → Laid (some '$') rest →
      Laid before (Piece.paint [Region.display block.text] ++ rest)

namespace Laid

variable {before before' : Option Char}

theorem of_starts {painted : Painted} (laid : Laid before painted)
    (starts : StartsLine before → StartsLine before') : Laid before' painted := by
  cases laid with
  | nil => exact .nil
  | plain kind plain rest => exact .plain kind plain rest
  | math body rest => exact .math body rest
  | block whole start follow rest => exact .block whole (starts start) follow rest

theorem append_plain {front rest : Painted}
    (plain : ∀ stroke ∈ front, stroke.2 ≠ .display ∧ stroke.1 ≠ '$')
    (laid : Laid (Text.lastOr before front.text) rest) : Laid before (front ++ rest) := by
  induction front generalizing before with
  | nil => exact laid
  | cons stroke front ih =>
      obtain ⟨char, kind⟩ := stroke
      obtain ⟨notDisplay, notDollar⟩ := plain (char, kind) (by simp)
      exact .plain notDisplay notDollar (ih (fun other member => plain other (by simp [member])) laid)

theorem outside_cons {char : Char} {rest : Painted}
    (laid : Laid before ((char, .outside) :: rest)) : char ≠ '$' ∧ Laid (some char) rest := by
  generalize wholeEq : (char, RegionKind.outside) :: rest = whole at laid
  cases laid with
  | nil => simp at wholeEq
  | plain _ plain later =>
      simp only [List.cons.injEq, Prod.mk.injEq] at wholeEq
      obtain ⟨⟨rfl, rfl⟩, rfl⟩ := wholeEq
      exact ⟨plain, later⟩
  | math _ _ => simp [Region.dollars] at wholeEq
  | @block _ _ block _ _ _ _ =>
      obtain ⟨first, others, split⟩ : ∃ first others, block.text = first :: others :=
        List.exists_cons_of_ne_nil (by simp [DisplayMath.Block.text, DisplayMath.Block.delimiter])
      simp [Region.display, split] at wholeEq

theorem outside_append {text : List Char} {rest : Painted}
    (laid : Laid before (Painted.outside text ++ rest)) :
    '$' ∉ text ∧ Laid (Text.lastOr before text) rest := by
  induction text generalizing before with
  | nil => exact ⟨by simp, laid⟩
  | cons char text ih =>
      obtain ⟨own, later⟩ := outside_cons laid
      obtain ⟨free, after⟩ := ih later
      exact ⟨by simp [free, own.symm], after⟩

theorem append_newline {newline : List Char} (lineEnd : IsLineEnd newline) {rest : Painted}
    (laid : Laid (some '\n') rest) : Laid before (Painted.outside newline ++ rest) := by
  refine append_plain ?_ ?_
  · intro stroke member
    obtain ⟨char, inNewline, rfl⟩ := List.mem_map.mp member
    have isReturn := isReturn_of_isLineEnd lineEnd char inNewline
    refine ⟨by simp, ?_⟩
    rintro rfl
    exact absurd isReturn (by decide)
  · rcases lineEnd with rfl | rfl
    · exact laid
    · exact laid

theorem laid_displayBlock {block : DisplayMath.Block} (whole : block.IsWhole) {after : Option Char}
    {rest : Painted} (starts : StartsLine before → StartsLine before')
    (follow : (∀ char, after = some char → Text.isReturn char = true) →
      ∀ char, rest.text.head? = some char → Text.isReturn char = true)
    (laid : Laid (Text.lastOr before' (Piece.join
      (displayBlock block.newline block.indent block.body before after))) rest) :
    Laid before' (Piece.paint (displayBlock block.newline block.indent block.body before after) ++
      rest) := by
  have shape : displayBlock block.newline block.indent block.body before after =
      (if before.any (· != '\n') then [Region.outside block.newline] else []) ++
        Region.display block.text ::
          if after.any fun char => !Text.isReturn char then [Region.outside block.newline]
          else [] := rfl
  rw [shape] at laid ⊢
  -- The block with what is below it may stand wherever a line starts.
  have standing : ∀ previous, StartsLine previous → Laid previous
      (Piece.paint [Region.display block.text] ++
        (Piece.paint (if after.any fun char => !Text.isReturn char then [Region.outside block.newline]
          else []) ++ rest)) := by
    intro previous atStart
    by_cases goesOn : (after.any fun char => !Text.isReturn char) = true
    · rw [if_pos goesOn] at laid ⊢
      have fed : Laid (some '\n') rest := by
        refine laid.of_starts fun _ => .inr rfl
      refine .block whole atStart ?_ ?_
      · rw [Painted.paint_outside]
        intro char head
        rcases whole.lineEnd with newline | newline
        · rw [newline] at head
          exact Option.some.inj head ▸ by decide
        · rw [newline] at head
          exact Option.some.inj head ▸ by decide
      · rw [Painted.paint_outside]
        exact append_newline whole.lineEnd fed
    · rw [if_neg goesOn] at laid ⊢
      refine .block whole atStart (follow ?_) ?_
      · intro char same
        simpa [same] using goesOn
      · simpa [Region.display] using laid
  by_cases above : before.any (· != '\n') = true
  · rw [if_pos above, List.cons_append, List.nil_append, Piece.paint_eq_append,
      Painted.paint_outside, List.append_assoc]
    refine append_newline whole.lineEnd ?_
    rw [Piece.paint_eq_append, List.append_assoc]
    exact standing _ (.inr rfl)
  · rw [if_neg above, List.nil_append, Piece.paint_eq_append, List.append_assoc]
    exact standing _ (starts (startsLine_of_any (by simpa using above)))

end Laid

namespace Stage.Replaces

variable {stage : Stage} {before before' after : Option Char} {text : List Char}
  {regions : List Region}

/-- Only a blank line that is dropped ends where a line starts. -/
theorem of_startsLine (replaced : stage.Replaces before text regions after) (filled : text ≠ [])
    (starts : StartsLine (Text.lastOr before text)) : regions = [] ∧ StartsLine before := by
  obtain ⟨init, last, rfl⟩ := (List.eq_nil_or_concat' text).resolve_left filled
  have feed : last = '\n' := by
    rcases starts with absent | same
    · simp at absent
    · simpa using same
  rcases replaced.ends List.getLast?_concat (by rw [feed]; decide) with ⟨notReturn, _⟩ | dropped
  · rw [feed] at notReturn
    exact absurd notReturn (by decide)
  · exact ⟨dropped.1, dropped.2.1⟩

theorem isBody_strip {inside : List Char} (free : '$' ∉ inside)
    (filled : Text.strip inside ≠ []) : InlineMath.IsBody (Text.strip inside) := by
  refine ⟨fun member => free ((Text.strip_isInfix inside).subset member), ?_⟩
  obtain ⟨init, last, split⟩ := (List.eq_nil_or_concat' _).resolve_left filled
  have final : (Text.strip inside).getLast? = some last := by
    rw [split, List.getLast?_concat]
  exact ⟨last, final, Text.not_isBlank_getLast_strip final⟩

theorem laid (replaced : stage.Replaces before text regions after) (free : '$' ∉ text)
    {rest : Painted} (starts : StartsLine before → StartsLine before')
    (follow : regions ≠ [] → (∀ char, after = some char → Text.isReturn char = true) →
      ∀ char, rest.text.head? = some char → Text.isReturn char = true)
    (laid : Laid (Text.lastOr before' (Piece.join regions)) rest) :
    Laid before' (Piece.paint regions ++ rest) := by
  have math {body : List Char} (isBody : InlineMath.IsBody body)
      (laid : Laid (Text.lastOr before' (Piece.join [Region.dollars body])) rest) :
      Laid before' (Piece.paint [Region.dollars body] ++ rest) :=
    .math isBody (by simpa [Region.dollars] using laid)
  have bracketed {newline inside : List Char} (lineEnd : IsLineEnd newline) (free : '$' ∉ inside) :
      DisplayMath.Block.IsWhole ⟨newline, [], Text.strip inside⟩ :=
    ⟨lineEnd, by simp, fun member => free ((Text.strip_isInfix inside).subset member)⟩
  cases replaced with
  | @squares _ inside _ _ lineEnd _ =>
      have inner : '$' ∉ inside := fun member => free (by simp [member])
      have whole := bracketed lineEnd inner
      exact Laid.laid_displayBlock whole starts (follow (by simp [displayBlock])) laid
  | @squareLines _ _ _ inside _ _ _ _ lineEnd _ _ _ _ =>
      have inner : '$' ∉ inside := fun member => free (by simp [member])
      have whole := bracketed lineEnd inner
      exact Laid.laid_displayBlock whole starts (follow (by simp [displayBlock])) laid
  | parens filled => exact math (isBody_strip (fun member => free (by simp [member])) filled) laid
  | padded _ _ => simp at free
  | @environment newline indent body _ _ lineEnd _ indented =>
      have whole : DisplayMath.Block.IsWhole ⟨newline, indent, body⟩ :=
        ⟨lineEnd, indented, fun member => free (by simp [member])⟩
      exact Laid.laid_displayBlock whole starts (follow (by simp [displayBlock])) laid
  | @hangingEnvironment newline indent body _ _ lineEnd _ filled indented =>
      have whole : DisplayMath.Block.IsWhole ⟨newline, [], body⟩ :=
        ⟨lineEnd, by simp, fun member => free (by simp [member])⟩
      have ends : Text.lastOr before' indent = indent.getLast? := Text.lastOr_of_ne_nil filled _
      rw [Piece.paint_eq_append, Painted.paint_outside, List.append_assoc]
      refine Laid.append_plain ?_ ?_
      · intro stroke member
        obtain ⟨char, inIndent, rfl⟩ := List.mem_map.mp member
        refine ⟨by simp, ?_⟩
        rintro rfl
        exact free (by simp [inIndent])
      · rw [Painted.text_outside]
        refine Laid.laid_displayBlock whole (ends ▸ id) (follow (List.cons_ne_nil _ _)) ?_
        simpa [Region.outside] using laid
  | @formula newline _ _ _ lineEnd _ _ atStart followed =>
      have whole : DisplayMath.Block.IsWhole ⟨newline, [], Text.stripRight text⟩ :=
        ⟨lineEnd, by simp, fun member => free ((Text.stripRight_isPrefix text).subset member)⟩
      have textEq : ['$', '$'] ++ newline ++ Text.stripRight text ++ newline ++ ['$', '$'] =
          DisplayMath.Block.text ⟨newline, [], Text.stripRight text⟩ := by
        simp [DisplayMath.Block.text, DisplayMath.Block.delimiter]
      rw [textEq] at laid follow ⊢
      refine .block whole (starts atStart) (follow (by simp) ?_) ?_
      · intro char same
        rwa [same] at followed
      · simpa [Region.display] using laid
  | squareSpan filled =>
      exact math (isBody_strip (fun member => free (by simp [member])) filled) laid
  | parenSpan filled =>
      exact math (isBody_strip (fun member => free (by simp [member])) filled) laid
  | @degree digit others sign _ _ _ _ =>
      have last : (digit :: others ++ degreeSign).getLast? = some '}' :=
        List.getLast?_append_of_ne_nil _ (by simp [degreeSign])
      refine math ⟨fun member => ?_, '}', last, by decide⟩ laid
      rcases List.mem_append.mp member with inNumber | inSign
      · exact free (List.mem_append_left _ inNumber)
      · exact absurd inSign (by decide)
  | token token => exact math ⟨free, token.isSolid.last⟩ laid
  | blankLine _ _ _ => exact laid

end Stage.Replaces

/-- A stage keeps the layout: blocks that stand stay on their lines, and those it puts in get lines
of their own. -/
theorem Laid.revised {stage : Stage} {before before' : Option Char} {old new : Painted}
    (laid : Laid before old) (revised : Revised stage.Replaces none before old new)
    (starts : StartsLine before → StartsLine before') : Laid before' new := by
  -- Math is passed over whole, so the induction is on the length of what is left.
  induction size : old.length using Nat.strong_induction_on generalizing before before' old new with
  | _ count ih =>
      cases laid with
      | nil =>
          rw [revised.of_nil]
          exact .nil
      | @plain _ char kind rest notDisplay notDollar later =>
          have whole : Laid before ((char, kind) :: rest) := .plain notDisplay notDollar later
          generalize oldEq : (char, kind) :: rest = old at revised whole
          cases revised with
          | nil => simp at oldEq
          | @keep _ _ _ old new tail =>
              simp only [List.cons.injEq, Prod.mk.injEq] at oldEq
              obtain ⟨⟨rfl, rfl⟩, rfl⟩ := oldEq
              exact .plain notDisplay notDollar (ih rest.length (by simp [← size]) later tail id rfl)
          | @replace _ text regions old new filled replaced tail =>
              obtain ⟨free, after⟩ := whole.outside_append
              have shorter : old.length < count := by
                have nonempty := List.length_pos_of_ne_nil filled
                rw [← size, oldEq]
                simp only [List.length_append, Painted.outside, List.length_map]
                omega
              refine replaced.laid free starts ?_ (ih old.length shorter after tail ?_ rfl)
              · intro kept returns
                refine tail.head_isReturn (fun atStart => ?_) ?_
                · exact kept (replaced.of_startsLine filled atStart).1
                · rwa [← Text.head?_or, Option.or_none] at returns
              · intro atStart
                obtain ⟨rfl, atLine⟩ := replaced.of_startsLine filled atStart
                exact starts atLine
      | @math _ body rest isBody later =>
          obtain ⟨new, rfl, tail⟩ := revised.drop_frozen
            (Painted.frozen_paint (by simp [Region.dollars]))
          have lastEq : Text.lastOr before (Piece.join [Region.dollars body]) = some '$' := by
            simp [Region.dollars]
          rw [Painted.text_paint, lastEq] at tail
          refine .math isBody (ih rest.length ?_ later tail id rfl)
          simp only [← size, List.length_append, Piece.paint_cons, Region.dollars, List.length_map,
            List.length_cons]
          omega
      | @block _ rest block isBlock atStart follow later =>
          obtain ⟨new, rfl, tail⟩ := revised.drop_frozen
            (Painted.frozen_paint (by simp [Region.display]))
          have lastEq : Text.lastOr before (Piece.join [Region.display block.text]) = some '$' := by
            simp [Region.display]
          rw [Painted.text_paint, lastEq] at tail
          refine .block isBlock (starts atStart) ?_ (ih rest.length ?_ later tail id rfl)
          · refine tail.head_isReturn ?_ follow
            rintro (absent | feed)
            · simp at absent
            · simp at feed
          · simp only [← size, List.length_append, Piece.paint_cons, Region.display,
              List.length_map, DisplayMath.Block.text, DisplayMath.Block.delimiter, List.length_cons]
            omega

namespace Document

theorem laid_regions {text : List Char} (free : '$' ∉ text) :
    Laid none (Piece.paint (regions text)) := by
  have noDisplay := noDisplay_regions free
  have spelled := join_regions text
  rw [← Painted.text_paint] at spelled
  rw [← List.append_nil (Piece.paint (regions text))]
  refine Laid.append_plain (fun stroke member => ⟨noDisplay stroke member, ?_⟩) .nil
  intro dollar
  rw [← spelled] at free
  exact free (List.mem_map.mpr ⟨stroke, member, dollar⟩)

end Document

theorem laid_convertedRegions (options : Options) {text : List Char} (free : '$' ∉ text) :
    Laid none (Piece.paint (convertedRegions options text)) :=
  preserved_convertedRegions (fun _ _ _ _ revised laid => laid.revised revised id)
    (Document.laid_regions free)

end DollarMath
