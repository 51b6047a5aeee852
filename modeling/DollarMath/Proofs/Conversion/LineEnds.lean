import DollarMath.Proofs.Conversion.FencedBlocks
import DollarMath.Proofs.Text.LineEnds

/-!
A conversion keeps the line ends of a document alike: what it writes ends its lines as the document
does, and what it takes out of a line goes from one line end to another.
-/

namespace DollarMath

def Opens (newline : List Char) (regions : List Region) : Prop :=
  ∀ region ∈ regions, region.kind = .display → ∃ indent rest,
    (∀ char ∈ indent, Text.isIndent char = true) ∧
      region.text = indent ++ ('$' :: '$' :: newline ++ rest)

theorem Opens.eq {newline other indent rest : List Char} {region : Region} {regions : List Region}
    (opens : Opens newline regions) (isEnd : IsLineEnd newline) (otherEnd : IsLineEnd other)
    (member : region ∈ regions) (isDisplay : region.kind = .display)
    (indented : ∀ char ∈ indent, Text.isIndent char = true)
    (textEq : region.text = indent ++ ('$' :: '$' :: other ++ rest)) : other = newline := by
  obtain ⟨indent', rest', indented', textEq'⟩ := opens region member isDisplay
  have bare {front back : List Char} (blank : ∀ char ∈ front, Text.isIndent char = true) :
      (front ++ ('$' :: '$' :: back)).dropWhile Text.isIndent = '$' :: '$' :: back := by
    rw [List.dropWhile_append_of_pos blank, List.dropWhile_cons_of_neg (by decide)]
  have same := congrArg (List.dropWhile Text.isIndent) (textEq.symm.trans textEq')
  simp only [List.cons_append] at same
  rw [bare indented, bare indented'] at same
  simp only [List.cons.injEq, true_and] at same
  rcases isEnd with rfl | rfl
  · rcases otherEnd with rfl | rfl
    · rfl
    · simp at same
  · rcases otherEnd with rfl | rfl
    · simp at same
    · rfl

theorem opens_displayBlock {newline indent : List Char}
    (indented : ∀ char ∈ indent, Text.isIndent char = true) (body : List Char)
    (previous next : Option Char) :
    Opens newline (displayBlock newline indent body previous next) := by
  intro region member isDisplay
  refine ⟨indent, indent ++ body ++ newline ++ indent ++ ['$', '$'], indented, ?_⟩
  unfold displayBlock at member
  simp only [List.mem_append, List.mem_cons] at member
  rcases member with above | rfl | below
  · split at above
    · rw [List.mem_singleton] at above
      simp [above, Region.outside] at isDisplay
    · simp at above
  · simp [Region.display]
  · split at below
    · rw [List.mem_singleton] at below
      simp [below, Region.outside] at isDisplay
    · simp at below

theorem mem_displayBlock (newline indent body : List Char) (previous next : Option Char) :
    ∃ region ∈ displayBlock newline indent body previous next, region.kind = .display ∧
      region.text = indent ++ ('$' :: '$' :: newline ++ (indent ++ body ++ newline ++ indent ++
        ['$', '$'])) := by
  refine ⟨Region.display _, List.mem_append_right _ List.mem_cons_self, rfl, ?_⟩
  simp [Region.display]

theorem opens_dollars (newline body : List Char) : Opens newline [Region.dollars body] := by
  intro region member isDisplay
  rw [List.mem_singleton] at member
  simp [member, Region.dollars] at isDisplay

namespace Text.Lined

variable {newline : List Char}

theorem dollars {body : List Char} (lined : Lined newline body) :
    Lined newline (Piece.join [Region.dollars body]) := by
  have mark : Lined newline ['$'] := of_any (by decide)
  have whole := (mark.append lined).append mark
  simpa [Region.dollars] using whole

theorem displayBlock {indent body : List Char}
    (indented : ∀ char ∈ indent, isIndent char = true) (lined : Lined newline body)
    (previous next : Option Char) :
    Lined newline (Piece.join (DollarMath.displayBlock newline indent body previous next)) := by
  have edge {part : List Char} (isEdge : part = [] ∨ part = newline) : Lined newline part := by
    rcases isEdge with rfl | rfl
    · exact .nil
    · exact lineEnd _
  have indents : Lined newline indent :=
    of_plain fun char member => not_isReturn_of_isIndent (indented char member)
  have marks : Lined newline ['$', '$'] := of_any (by decide)
  obtain ⟨above, below, isAbove, isBelow, whole⟩ :=
    join_displayBlock newline indent body previous next
  rw [whole]
  have opening := ((((edge isAbove).append indents).append marks).append (lineEnd _)).append indents
  have closing := (((lineEnd _).append indents).append marks).append (edge isBelow)
  exact (opening.append lined).append closing

end Text.Lined

namespace Stage.Replaces

variable {stage : Stage} {before after : Option Char} {newline text : List Char}
  {regions : List Region}

theorem lined (replaced : stage.Replaces before text regions after) (isEnd : IsLineEnd newline)
    (opens : Opens newline regions) (lined : Text.Lined newline text) :
    Text.Lined newline (Piece.join regions) := by
  have solid {body : List Char} (inText : body <:+: text) (isSolid : IsSolid body) :
      Text.Lined newline body := by
    refine lined.of_isInfix isEnd inText ?_ ?_
    · obtain ⟨char, charEq, notReturn⟩ := isSolid.first
      rw [charEq]
      rintro ⟨⟩
      exact absurd notReturn (by decide)
    · obtain ⟨char, charEq, notBlank⟩ := isSolid.last
      rw [charEq]
      rintro ⟨⟩
      exact absurd notBlank (by decide)
  have block {other indent body : List Char} {previous next : Option Char}
      (otherEnd : IsLineEnd other) (indented : ∀ char ∈ indent, Text.isIndent char = true)
      (made : displayBlock other indent body previous next ⊆ regions)
      (inner : Text.Lined newline body) :
      Text.Lined newline (Piece.join (displayBlock other indent body previous next)) := by
    obtain ⟨region, member, isDisplay, textEq⟩ := mem_displayBlock other indent body previous next
    obtain rfl := opens.eq isEnd otherEnd (made member) isDisplay indented textEq
    exact .displayBlock indented inner previous next
  cases replaced with
  | squares otherEnd _ =>
      exact block otherEnd (by simp) (List.Subset.refl _) (lined.strip isEnd ⟨_, _, rfl⟩)
  | @squareLines _ left lead inside trail right _ _ otherEnd _ _ _ _ =>
      have inText : inside <:+: left ++ '[' :: lead ++ inside ++ trail ++ ']' :: right :=
        ⟨left ++ '[' :: lead, trail ++ ']' :: right, by simp⟩
      exact block otherEnd (by simp) (List.Subset.refl _) (lined.strip isEnd inText)
  | parens _ => exact .dollars (lined.strip isEnd ⟨_, _, rfl⟩)
  | padded _ _ => exact .dollars (lined.strip isEnd ⟨['$'], _, rfl⟩)
  | environment otherEnd command indented =>
      exact block otherEnd indented (List.Subset.refl _)
        (solid (List.suffix_append _ _).isInfix command.isSolid)
  | @hangingEnvironment _ indent _ _ _ otherEnd command _ indented =>
      have indents : Text.Lined newline indent :=
        .of_plain fun char member => not_isReturn_of_isIndent (indented char member)
      exact indents.append (block otherEnd (by simp) (List.subset_cons_self _ _)
        (solid (List.suffix_append _ _).isInfix command.isSolid))
  | @formula other _ _ _ otherEnd _ _ _ _ =>
      have textEq : (['$', '$'] ++ other ++ Text.stripRight text ++ other ++ ['$', '$']) =
          [] ++ ('$' :: '$' :: other ++ (Text.stripRight text ++ other ++ ['$', '$'])) := by simp
      obtain rfl : other = newline :=
        opens.eq isEnd otherEnd List.mem_cons_self rfl (by simp) textEq
      obtain ⟨right, whole⟩ := Text.stripRight_isPrefix text
      have body : Text.Lined other (Text.stripRight text) := by
        rw [← whole] at lined
        refine (lined.of_append isEnd fun last => ?_).1
        exact absurd (Text.not_isBlank_getLast_stripRight last) (by decide)
      have marks : Text.Lined other ['$', '$'] := .of_any (by decide)
      have newlines := Text.Lined.lineEnd other
      have block := (((marks.append newlines).append body).append newlines).append marks
      simpa [Region.display] using block
  | squareSpan _ => exact .dollars (lined.strip isEnd ⟨['['], _, rfl⟩)
  | parenSpan _ => exact .dollars (lined.strip isEnd ⟨['('], _, rfl⟩)
  | @degree digit others sign _ _ _ signs =>
      have number : Text.Lined newline (digit :: others) := by
        refine (lined.of_append isEnd fun _ => ?_).1
        rcases signs with rfl | rfl <;> decide
      exact .dollars (number.append (.of_any (by decide)))
  | token token => exact .dollars (solid List.infix_rfl token.isSolid)
  | blankLine _ _ _ => exact .nil

end Stage.Replaces

/-- A revision by replacements that open display math with the line end of the document. The text
before the revised one ends inside of a line end if `lead` is a carriage return. -/
theorem Revised.lined {replaces : Replacement} {newline : List Char} (isEnd : IsLineEnd newline)
    (own : ∀ before text regions after, replaces before text regions after →
      Opens newline regions ∧ ∃ stage : Stage, stage.Replaces before text regions after)
    {before : Option Char} {old new : Painted} (revised : Revised replaces none before old new)
    {lead : List Char}
    (led : lead = [] ∧ before ≠ some '\r' ∨ lead = ['\r'] ∧ before = some '\r')
    (lined : Text.Lined newline (lead ++ old.text)) : Text.Lined newline (lead ++ new.text) := by
  induction revised generalizing lead with
  | nil => exact lined
  | @keep before char kind old new _ ih =>
      rw [Painted.text_cons] at lined ⊢
      rcases led with ⟨rfl, _⟩ | ⟨rfl, _⟩
      · by_cases isReturn : char = '\r'
        · subst isReturn
          exact @ih ['\r'] (.inr ⟨rfl, rfl⟩) lined
        · have cut : Text.Lined newline ([char] ++ old.text) := lined
          obtain ⟨first, rest⟩ := cut.of_append isEnd (by simp [isReturn])
          exact first.append (@ih [] (.inl ⟨rfl, by simpa using isReturn⟩) rest)
      · obtain rfl := lined.head_eq isEnd
        have cut : Text.Lined newline (['\r', '\n'] ++ old.text) := lined
        obtain ⟨first, rest⟩ := cut.of_append isEnd (by simp)
        exact first.append (@ih [] (.inl ⟨rfl, by decide⟩) rest)
  | @replace before text regions old new filled replaced _ ih =>
      obtain ⟨opens, stage, rule⟩ := own _ _ _ _ replaced
      rw [Painted.text_append, Painted.text_outside] at lined
      rw [Painted.text_append, Painted.text_paint]
      rcases led with ⟨rfl, _⟩ | ⟨rfl, rfl⟩
      · -- A replaced text holds a line end whole or not at all.
        rw [List.nil_append] at lined
        have ended : text.getLast? ≠ some '\r' := by
          intro last
          rcases rule.ends last (by decide) with ⟨notReturn, _⟩ | ⟨_, _, feed | final⟩
          · exact absurd notReturn (by decide)
          · exact absurd feed (by decide)
          · have atEnd : old.text = [] := by
              by_contra more
              simp [Text.headOr_of_ne_nil more] at final
              exact more final
            rw [atEnd, List.append_nil] at lined
            exact lined.getLast?_ne isEnd last
        obtain ⟨first, rest⟩ := lined.of_append isEnd fun last => absurd last ended
        have after : Text.lastOr before text ≠ some '\r' := by
          rwa [Text.lastOr_of_ne_nil filled]
        exact (rule.lined isEnd opens first).append (@ih [] (.inl ⟨rfl, after⟩) rest)
      · obtain ⟨first, rest, rfl⟩ := List.exists_cons_of_ne_nil filled
        obtain rfl := lined.head_eq isEnd
        rcases rule.starts rfl (by decide) with absent | feed
        · simp at absent
        · simp at feed

def Stage.writers : List Stage :=
  [.delimiters, .environments, .formulaLines]

/-- A replacement that writes the line end into display math and keeps a document broken into
lines. -/
structure Stage.Writes (newline : List Char) (stage : Stage) (before : Option Char)
    (text : List Char) (regions : List Region) (after : Option Char) : Prop where
  replaced : stage.Replaces before text regions after
  opens : Opens newline regions
  feed : '\n' ∈ text → '\n' ∈ Piece.join regions

theorem mem_join_displayBlock {newline : List Char} (isEnd : IsLineEnd newline)
    (indent body : List Char) (previous next : Option Char) :
    '\n' ∈ Piece.join (displayBlock newline indent body previous next) := by
  obtain ⟨above, below, _, _, whole⟩ := join_displayBlock newline indent body previous next
  rw [whole]
  rcases isEnd with rfl | rfl <;> simp

namespace Delimiters

theorem writes_toDisplay {newline taken inside : List Char} {before after : Option Char}
    {regions : List Region} (isEnd : IsLineEnd newline)
    (built : toDisplay newline before taken inside after = some regions)
    (replaced : Stage.Replaces .delimiters before taken regions after) :
    Stage.Writes newline .delimiters before taken regions after := by
  unfold toDisplay at built
  dsimp only at built
  split at built
  next => simp at built
  next =>
    simp only [Option.some.injEq] at built
    subst built
    exact ⟨replaced, opens_displayBlock (by simp) _ _ _,
      fun _ => mem_join_displayBlock isEnd _ _ _ _⟩

theorem writes_toInline {newline taken inside : List Char} {before after : Option Char}
    {regions : List Region} (onLine : '\n' ∉ taken)
    (built : toInline before taken inside after = some regions)
    (replaced : Stage.Replaces .delimiters before taken regions after) :
    Stage.Writes newline .delimiters before taken regions after := by
  obtain ⟨_, rfl⟩ := toInline_eq_some built
  exact ⟨replaced, opens_dollars newline _, fun feed => absurd feed onLine⟩

theorem onLine_escapedParens {previous : Option Char} {text inside : List Char} {size : Nat}
    (found : escapedParens previous text = some (size, inside)) : '\n' ∉ text.take size := by
  unfold escapedParens at found
  split at found
  next rest =>
    split at found
    next => simp at found
    next =>
      split at found
      next body left split =>
        split at found
        next => simp at found
        next free =>
          simp only [Option.some.injEq, Prod.mk.injEq] at found
          obtain ⟨rfl, rfl⟩ := found
          rw [Text.splitAtFirst?_eq_some split]
          have cut : '\\' :: '(' :: (body ++ ['\\', ')'] ++ left) =
              ('\\' :: '(' :: (body ++ ['\\', ')'])) ++ left := rfl
          rw [cut, List.take_left' (by simp)]
          simpa using free
      next => simp at found
  next => simp at found

theorem onLine_paddedDollars {previous : Option Char} {text inside : List Char} {size : Nat}
    (found : paddedDollars previous text = some (size, inside)) : '\n' ∉ text.take size := by
  unfold paddedDollars at found
  split at found
  next rest =>
    split at found
    next => simp at found
    next =>
      dsimp only at found
      split at found
      next after closed =>
        split at found
        next =>
          simp only [Option.some.injEq, Prod.mk.injEq] at found
          obtain ⟨rfl, _⟩ := found
          have free : '\n' ∉ rest.takeWhile fun char => char != '$' && char != '\n' := by
            intro member
            have bare := List.mem_takeWhile_imp member
            exact absurd bare (by decide)
          have whole := List.takeWhile_append_dropWhile
            (p := fun char => char != '$' && char != '\n') (l := rest)
          generalize rest.takeWhile _ = body at closed free whole ⊢
          rw [← whole, List.drop_left] at closed
          rw [← whole, closed]
          have cut : '$' :: (body ++ '$' :: after) = ('$' :: (body ++ ['$'])) ++ after := by simp
          rw [cut, List.take_left' (by simp)]
          simpa using free
        next => simp at found
      next => simp at found
  next => simp at found

theorem toDisplay_of_atLine {newline taken inside : List Char} {before after : Option Char}
    {regions : List Region}
    (built : toDisplayAtLine newline before taken inside after = some regions) :
    toDisplay newline before taken inside after = some regions := by
  unfold toDisplayAtLine at built
  split at built
  next => simp at built
  next => exact built

theorem writes_escapedParens (newline : List Char) :
    Substitutes escapedParens toInline (Stage.Writes newline .delimiters) :=
  substitutes_escapedParens.strengthen fun _ _ _ _ _ _ _ found built replaced =>
    writes_toInline (onLine_escapedParens found) built replaced

theorem writes_paddedDollars (newline : List Char) :
    Substitutes paddedDollars toInline (Stage.Writes newline .delimiters) :=
  substitutes_paddedDollars.strengthen fun _ _ _ _ _ _ _ found built replaced =>
    writes_toInline (onLine_paddedDollars found) built replaced

section Passes

variable {newline : List Char} (isEnd : IsLineEnd newline)

include isEnd

theorem writes_escapedSquares :
    Substitutes escapedSquares (toDisplay newline) (Stage.Writes newline .delimiters) :=
  (substitutes_escapedSquares isEnd).strengthen fun _ _ _ _ _ _ _ _ built replaced =>
    writes_toDisplay isEnd built replaced

theorem writes_bracketLines :
    Substitutes bracketLines (toDisplayAtLine newline) (Stage.Writes newline .delimiters) :=
  (substitutes_bracketLines isEnd).strengthen fun _ _ _ _ _ _ _ _ built replaced =>
    writes_toDisplay isEnd (toDisplay_of_atLine built) replaced

theorem writes_normalize {regions : List Region} (fused : Piece.IsFused regions)
    (same : lineEnding (Piece.join regions) = newline) :
    Relation.ReflTransGen (Passes (Stage.Writes newline .delimiters)) regions
      (normalize regions) := by
  unfold normalize
  rw [same]
  dsimp only
  have squares := passes_substitution (writes_escapedSquares isEnd) fused
  have lines := passes_substitution (writes_bracketLines isEnd) squares.fused
  have parens := passes_substitution (writes_escapedParens newline) lines.fused
  have padded := passes_substitution (writes_paddedDollars newline) parens.fused
  exact .tail (.tail (.tail (.single squares) lines) parens) padded

end Passes

end Delimiters

namespace Environments

theorem isIndent_of_environment {previous : Option Char} {text indent : List Char} {size : Nat}
    (found : environment previous text = some (size, indent)) :
    ∀ char ∈ indent, Text.isIndent char = true := by
  unfold environment at found
  obtain ⟨_, _, same⟩ := Option.map_eq_some_iff.mp found
  obtain ⟨_, rfl⟩ := Prod.mk.inj same
  intro char member
  split at member
  · simp at member
  · exact List.mem_takeWhile_imp member

theorem writes_toDisplay {newline taken indent : List Char} {before after : Option Char}
    {regions : List Region} (isEnd : IsLineEnd newline)
    (indented : ∀ char ∈ indent, Text.isIndent char = true)
    (built : toDisplay newline before taken indent after = some regions)
    (replaced : Stage.Replaces .environments before taken regions after) :
    Stage.Writes newline .environments before taken regions after := by
  unfold toDisplay at built
  dsimp only at built
  split at built
  next =>
    simp only [Option.some.injEq] at built
    subst built
    refine ⟨replaced, ?_, fun _ => ?_⟩
    · intro region member isDisplay
      rcases List.mem_cons.mp member with rfl | later
      · simp [Region.outside] at isDisplay
      · exact opens_displayBlock (by simp) _ _ _ region later isDisplay
    · rw [Piece.join_cons]
      exact List.mem_append_right _ (mem_join_displayBlock isEnd _ _ _ _)
  next =>
    simp only [Option.some.injEq] at built
    subst built
    exact ⟨replaced, opens_displayBlock indented _ _ _,
      fun _ => mem_join_displayBlock isEnd _ _ _ _⟩

theorem writes_wrap {newline : List Char} (isEnd : IsLineEnd newline) {regions : List Region}
    (fused : Piece.IsFused regions) (same : lineEnding (Piece.join regions) = newline) :
    Passes (Stage.Writes newline .environments) regions (wrap regions) := by
  unfold wrap
  rw [same]
  refine passes_substitution ((substitutes_environment isEnd).strengthen ?_) fused
  intro _ _ _ _ _ _ _ found built replaced
  exact writes_toDisplay isEnd (isIndent_of_environment found) built replaced

end Environments

theorem FormulaLines.writes_promote {newline : List Char} (isEnd : IsLineEnd newline)
    {regions : List Region} (fused : Piece.IsFused regions)
    (same : lineEnding (Piece.join regions) = newline) :
    Passes (Stage.Writes newline .formulaLines) regions (promote regions) := by
  unfold promote
  rw [same]
  refine ⟨EditTable.isFused_apply fused, revised_apply ?_⟩
  intro before region after whole edit member
  obtain ⟨free, inside, replaced⟩ := fits_of_mem_editsFrom isEnd whole member
  obtain ⟨_, _, _, _, edited⟩ := mem_editsFrom member
  obtain ⟨_, _, _, _, _, _, made⟩ := edit?_eq_some edited
  refine ⟨free, inside, replaced, ?_, ?_⟩
  · rw [made]
    intro block inBlock _
    rw [List.mem_singleton] at inBlock
    exact ⟨[], _, by simp, by rw [inBlock]; simp [Region.display]; rfl⟩
  · rw [made]
    intro _
    rcases isEnd with rfl | rfl <;> simp [Region.display]

theorem Stage.writes_run {newline : List Char} (isEnd : IsLineEnd newline) {stage : Stage}
    (writer : stage ∈ writers) {regions : List Region} (fused : Piece.IsFused regions)
    (same : lineEnding (Piece.join regions) = newline) :
    Relation.ReflTransGen (DollarMath.Passes (stage.Writes newline)) regions
      (stage.run regions) := by
  simp only [writers, List.mem_cons, List.not_mem_nil, or_false] at writer
  rcases writer with rfl | rfl | rfl
  · exact Delimiters.writes_normalize isEnd fused same
  · exact .single (Environments.writes_wrap isEnd fused same)
  · exact .single (FormulaLines.writes_promote isEnd fused same)

theorem Stage.Replaces.opens {stage : Stage} {before after : Option Char} {text : List Char}
    {regions : List Region} (replaced : stage.Replaces before text regions after)
    (plain : stage ∉ writers) (newline : List Char) : Opens newline regions := by
  cases replaced with
  | squareSpan _ => exact opens_dollars _ _
  | parenSpan _ => exact opens_dollars _ _
  | degree _ _ => exact opens_dollars _ _
  | token _ => exact opens_dollars _ _
  | blankLine _ _ _ => simp [Opens]
  | _ => exact absurd (by simp [writers]) plain

theorem Stage.enabled_eq (options : Options) :
    enabled options = writers.filter (isEnabled options) ++
      [squares, parens, bareTokens, blankLines].filter (isEnabled options) := by
  rw [enabled, ← List.filter_append]
  rfl

theorem Passes.lined {replaces : Replacement} {newline : List Char} (isEnd : IsLineEnd newline)
    (own : ∀ before text regions after, replaces before text regions after →
      Opens newline regions ∧ ∃ stage : Stage, stage.Replaces before text regions after)
    {old new : List Region} (pass : Passes replaces old new)
    (lined : Text.Lined newline (Piece.join old)) : Text.Lined newline (Piece.join new) := by
  rw [← Painted.text_paint] at lined ⊢
  exact pass.revised.lined isEnd own (.inl ⟨rfl, by simp⟩) lined

theorem Passes.lined_writes {newline : List Char} (isEnd : IsLineEnd newline) {stage : Stage}
    {old new : List Region} (pass : Passes (stage.Writes newline) old new)
    (lined : Text.Lined newline (Piece.join old)) : Text.Lined newline (Piece.join new) :=
  pass.lined isEnd (fun _ _ _ _ rule => ⟨rule.opens, stage, rule.replaced⟩) lined

theorem Revised.feed {newline : List Char} {stage : Stage} {before after : Option Char}
    {old new : Painted} (revised : Revised (stage.Writes newline) after before old new)
    (feed : '\n' ∈ old.text) : '\n' ∈ new.text := by
  induction revised with
  | nil => exact feed
  | keep _ ih =>
      rcases List.mem_cons.mp feed with same | later
      · exact same ▸ List.mem_cons_self
      · exact List.mem_cons_of_mem _ (ih later)
  | replace _ replaced _ ih =>
      rw [Painted.text_append, Painted.text_outside, List.mem_append] at feed
      rw [Painted.text_append, Painted.text_paint, List.mem_append]
      rcases feed with own | later
      · exact .inl (replaced.feed own)
      · exact .inr (ih later)

theorem Passes.feed {newline : List Char} {stage : Stage} {old new : List Region}
    (pass : Passes (stage.Writes newline) old new) (feed : '\n' ∈ Piece.join old) :
    '\n' ∈ Piece.join new := by
  rw [← Painted.text_paint] at feed ⊢
  exact pass.revised.feed feed

theorem lined_run {newline : List Char} (isEnd : IsLineEnd newline) {stage : Stage}
    (writer : stage ∈ Stage.writers) {regions : List Region} (fused : Piece.IsFused regions)
    (lined : Text.Lined newline (Piece.join regions))
    (fed : newline = ['\n'] ∨ '\n' ∈ Piece.join regions) :
    Text.Lined newline (Piece.join (stage.run regions)) ∧
      (newline = ['\n'] ∨ '\n' ∈ Piece.join (stage.run regions)) := by
  have passes := Stage.writes_run isEnd writer fused (lined.lineEnding_eq isEnd fed)
  generalize stage.run regions = result at passes ⊢
  induction passes with
  | refl => exact ⟨lined, fed⟩
  | tail _ pass ih =>
      exact ⟨pass.lined_writes isEnd ih.1, ih.2.imp_right pass.feed⟩

theorem lined_writers {newline : List Char} (isEnd : IsLineEnd newline) {stages : List Stage}
    (writers : stages ⊆ Stage.writers) {regions : List Region} (fused : Piece.IsFused regions)
    (lined : Text.Lined newline (Piece.join regions))
    (fed : newline = ['\n'] ∨ '\n' ∈ Piece.join regions) :
    Piece.IsFused (stages.foldl (fun regions stage => stage.run regions) regions) ∧
      Text.Lined newline
        (Piece.join (stages.foldl (fun regions stage => stage.run regions) regions)) := by
  induction stages generalizing regions with
  | nil => exact ⟨fused, lined⟩
  | cons stage stages ih =>
      obtain ⟨writer, others⟩ := List.cons_subset.mp writers
      obtain ⟨lined', fed'⟩ := lined_run isEnd writer fused lined fed
      exact ih others (stage.isFused_run fused) lined' fed'

/-- The line ends of a converted document are those of the document. -/
theorem lined_convert {newline : List Char} (isEnd : IsLineEnd newline) (options : Options)
    {text : List Char} (lined : Text.Lined newline text) (fed : newline = ['\n'] ∨ '\n' ∈ text) :
    Text.Lined newline (convert options text) := by
  rw [convert, convertedRegions, Stage.enabled_eq, List.foldl_append]
  rw [← Document.join_regions text] at lined fed
  obtain ⟨fused, written⟩ :=
    lined_writers isEnd (List.filter_subset_self _) (Piece.isFused_fuse _) lined fed
  rw [← Painted.text_paint] at written ⊢
  refine (preserved_foldl (motive := fun painted => Text.Lined newline painted.text) ?_ fused
    written).2
  intro stage member old new revised lined
  have plain : stage ∉ Stage.writers := by
    have other := (List.mem_filter.mp member).1
    simp only [List.mem_cons, List.not_mem_nil, or_false] at other
    rcases other with rfl | rfl | rfl | rfl <;> decide
  have own (before : Option Char) (text : List Char) (regions : List Region)
      (after : Option Char) (rule : stage.Replaces before text regions after) :
      Opens newline regions ∧ ∃ stage : Stage, stage.Replaces before text regions after :=
    ⟨rule.opens plain newline, stage, rule⟩
  exact revised.lined isEnd own (.inl ⟨rfl, by simp⟩) lined

theorem lineEnds_convert (options : Options) (text : List Char) :
    ('\n' ∈ text → Text.Uniform text → Text.Uniform (convert options text)) ∧
      ('\r' ∉ text → '\r' ∉ convert options text) := by
  constructor
  · intro feed uniform
    exact (lined_convert (.inr rfl) options (.of_uniform uniform) (.inr feed)).uniform
  · intro free
    exact (lined_convert (.inl rfl) options (.of_free free) (.inl rfl)).free

theorem lineEnds_convert_square :
    ('\n' ∈ "so \\[x\\] ok\r\nend".toList ∧ Text.Uniform "so \\[x\\] ok\r\nend".toList) ∧
      Text.Uniform (convert {} "so \\[x\\] ok\r\nend".toList) ∧
      '\r' ∉ "so \\[x\\] ok\nend".toList ∧
      '\r' ∉ convert {} "so \\[x\\] ok\nend".toList := by
  have uniform : Text.Uniform "so \\[x\\] ok\r\nend".toList := ⟨by decide, by decide, by decide⟩
  refine ⟨⟨by decide, uniform⟩, (lineEnds_convert {} _).1 (by decide) uniform, by decide,
    (lineEnds_convert {} _).2 (by decide)⟩

end DollarMath
