import DollarMath.Proofs.Conversion.Frozen
import DollarMath.Proofs.Conversion.Stretches
import DollarMath.Proofs.Document.DisplayFree

/-!
How inline math closes. What a stage puts between dollars does not end with a blank, and ends with a
backslash only if the body of delimiters outside does, which then escapes the closing dollar.
-/

namespace DollarMath

inductive Rows (IsBody : List Char → Prop) : Painted → Prop
  | nil : Rows IsBody []
  | plain {char kind rest} : kind ≠ .inline → Rows IsBody rest →
      Rows IsBody ((char, kind) :: rest)
  | math {body rest} : IsBody body → Rows IsBody rest →
      Rows IsBody (Piece.paint [Region.dollars body] ++ rest)

theorem frozen_dollars (body : List Char) :
    ∀ stroke ∈ Piece.paint [Region.dollars body], stroke.2 ≠ .outside :=
  Painted.frozen_paint (by simp [Region.dollars])

namespace Rows

variable {IsBody : List Char → Prop} {first second : Painted}

theorem append (left : Rows IsBody first) (right : Rows IsBody second) :
    Rows IsBody (first ++ second) := by
  induction left with
  | nil => exact right
  | plain other _ ih => exact .plain other ih
  | math isBody _ ih =>
      rw [List.append_assoc]
      exact .math isBody ih

theorem of_freeOf (free : first.FreeOf .inline) : Rows IsBody first := by
  induction first with
  | nil => exact .nil
  | cons stroke first ih =>
      exact .plain (free stroke (by simp)) (ih fun other member => free other (by simp [member]))

theorem single {body : List Char} (isBody : IsBody body) :
    Rows IsBody (Piece.paint [Region.dollars body]) := by
  simpa using math isBody .nil

theorem drop_plain (free : first.FreeOf .inline) (rows : Rows IsBody (first ++ second)) :
    Rows IsBody second := by
  induction first with
  | nil => exact rows
  | cons stroke first ih =>
      have own := free stroke (by simp)
      generalize whole : stroke :: first ++ second = painted at rows
      cases rows with
      | nil => simp at whole
      | plain _ later =>
          simp only [List.cons_append, List.cons.injEq] at whole
          obtain ⟨_, rfl⟩ := whole
          exact ih (fun other member => free other (by simp [member])) later
      | math _ _ =>
          simp only [List.cons_append, Piece.paint_cons, Region.dollars, List.map_cons,
            List.cons.injEq] at whole
          exact absurd (by rw [whole.1]) own

/-- A whole row of inline math can be dropped, and its last body stands at its end. -/
theorem split_inline {text : List Char} {rest : Painted}
    (rows : Rows IsBody (text.map (·, .inline) ++ rest)) (ended : rest.firstKind ≠ some .inline) :
    Rows IsBody rest ∧
      (text ≠ [] → ∃ front body, IsBody body ∧ text = front ++ ('$' :: body ++ ['$'])) := by
  generalize whole : text.map (·, RegionKind.inline) ++ rest = painted at rows
  induction rows generalizing text with
  | nil =>
      obtain ⟨noText, rfl⟩ := List.append_eq_nil_iff.mp whole
      exact ⟨.nil, fun filled => absurd (List.map_eq_nil_iff.mp noText) filled⟩
  | plain other later _ =>
      cases text with
      | nil =>
          rw [List.map_nil, List.nil_append] at whole
          exact ⟨whole ▸ .plain other later, fun filled => absurd rfl filled⟩
      | cons char text =>
          simp only [List.map_cons, List.cons_append, List.cons.injEq, Prod.mk.injEq] at whole
          exact absurd whole.1.2.symm other
  | @math body later isBody rows ih =>
      cases text with
      | nil =>
          rw [List.map_nil, List.nil_append] at whole
          exact ⟨whole ▸ .math isBody rows, fun filled => absurd rfl filled⟩
      | cons char text =>
          rw [Piece.paint_cons, Piece.paint_nil, List.append_nil] at whole
          rcases List.append_eq_append_iff.mp whole with ⟨left, own, restEq⟩ | ⟨left, own, laterEq⟩
          · cases left with
            | nil =>
                rw [List.append_nil] at own
                have textEq := congrArg Painted.text own
                simp only [Region.dollars, Painted.text_map] at textEq
                simp only [List.nil_append] at restEq
                exact ⟨restEq ▸ rows, fun _ => ⟨[], body, isBody, textEq.symm⟩⟩
            | cons stroke left =>
                -- The row would go on in what follows it.
                have member : stroke ∈
                    (Region.dollars body).text.map (·, (Region.dollars body).kind) := by
                  rw [own]
                  simp
                obtain ⟨other, _, rfl⟩ := List.mem_map.mp member
                rw [restEq] at ended
                exact absurd rfl ended
          · obtain ⟨others, tail, textEq, headEq, leftEq⟩ := List.map_eq_append_iff.mp own
            subst leftEq
            obtain ⟨restRows, ends⟩ := ih laterEq.symm
            refine ⟨restRows, fun _ => ?_⟩
            have bodyEq := congrArg Painted.text headEq
            simp only [Painted.text_map] at bodyEq
            rw [textEq, bodyEq]
            by_cases last : tail = []
            · exact ⟨[], body, isBody, by simp [last, Region.dollars]⟩
            · obtain ⟨front, final, isFinal, rfl⟩ := ends last
              exact ⟨(Region.dollars body).text ++ front, final, isFinal, by simp⟩

theorem revised {replaces : Replacement} {before after : Option Char} {old new : Painted}
    (rows : Rows IsBody old) (revised : Revised replaces after before old new)
    (own : ∀ before text regions after, replaces before text regions after →
      Rows IsBody (Piece.paint regions)) : Rows IsBody new := by
  induction rows generalizing before new with
  | nil =>
      rw [revised.of_nil]
      exact .nil
  | @plain char kind rest other _ ih =>
      generalize oldEq : (char, kind) :: rest = old at revised
      cases revised with
      | nil => simp at oldEq
      | keep later =>
          simp only [List.cons.injEq, Prod.mk.injEq] at oldEq
          obtain ⟨⟨rfl, rfl⟩, rfl⟩ := oldEq
          exact .plain other (ih later)
      | @replace _ text regions old new filled replaced later =>
          obtain ⟨first, text, rfl⟩ := List.exists_cons_of_ne_nil filled
          simp only [Painted.outside_cons, List.cons_append, List.cons.injEq] at oldEq
          obtain ⟨_, rfl⟩ := oldEq
          -- The rest of the replaced text is kept, so that what follows is revised as before.
          have kept : Revised replaces after (some first) (Painted.outside text ++ old)
              (Painted.outside text ++ new) := .append (.refl _ _) (by simpa using later)
          refine (own _ _ _ _ replaced).append ((ih kept).drop_plain ?_)
          intro stroke member
          obtain ⟨_, _, rfl⟩ := List.mem_map.mp member
          simp
  | @math body rest isBody _ ih =>
      obtain ⟨rest', rfl, later⟩ := revised.drop_frozen (frozen_dollars body)
      exact .math isBody (ih later)

end Rows

theorem Piece.IsFused.firstKind_ne {region : Region} {regions : List Region}
    (fused : IsFused (region :: regions)) :
    Painted.firstKind (paint regions) ≠ some region.kind := by
  cases regions with
  | nil => simp [Painted.firstKind]
  | cons next regions =>
      have filled := fused.nonempty next (by simp)
      obtain ⟨char, text, textEq⟩ := List.exists_cons_of_ne_nil filled
      have differ := (List.isChain_cons_cons.mp fused.differ).1
      simpa [Painted.firstKind, textEq] using differ.symm

theorem Rows.ends {IsBody : List Char → Prop} {regions : List Region}
    (rows : Rows IsBody (Piece.paint regions)) (fused : Piece.IsFused regions) {region : Region}
    (member : region ∈ regions) (isInline : region.kind = .inline) :
    ∃ front body, IsBody body ∧ region.text = front ++ ('$' :: body ++ ['$']) := by
  induction regions with
  | nil => simp at member
  | cons first regions ih =>
      rw [Piece.paint_cons] at rows
      by_cases kind : first.kind = .inline
      · have ended := fused.firstKind_ne
        rw [kind] at rows ended
        obtain ⟨later, own⟩ := rows.split_inline ended
        rcases List.mem_cons.mp member with rfl | others
        · exact own (fused.nonempty region (by simp))
        · exact ih later fused.tail others
      · have free : Painted.FreeOf .inline (first.text.map (·, first.kind)) := by
          intro stroke inFirst
          obtain ⟨_, _, rfl⟩ := List.mem_map.mp inFirst
          exact kind
        rcases List.mem_cons.mp member with rfl | others
        · exact absurd isInline kind
        · exact ih (rows.drop_plain free) fused.tail others

/-- What is put in the place of a text is put in the place of a text of the whole document. -/
theorem Revised.within {replaces : Replacement} {before after : Option Char}
    {old new whole : Painted} (revised : Revised replaces after before old new)
    (inWhole : old <:+: whole) :
    Revised
      (fun before text regions after =>
        replaces before text regions after ∧ Painted.outside text <:+: whole)
      after before old new := by
  induction revised with
  | nil => exact .nil
  | keep _ ih => exact .keep (ih ((List.suffix_cons _ _).isInfix.trans inWhole))
  | replace filled replaced _ ih =>
      refine .replace filled ⟨replaced, ?_⟩ (ih ((List.suffix_append _ _).isInfix.trans inWhole))
      exact (List.prefix_append _ _).isInfix.trans inWhole

/-- Delimiters of inline math that the conversion replaces by dollars. -/
inductive Delimits (options : Options) : (opening closing : List Char) → Prop
  | escaped : Delimits options ['\\', '('] ['\\', ')']
  | padded : Delimits options ['$'] ['$']
  | squares : options.squares = true → Delimits options ['['] [']']
  | parens : options.parens = true → Delimits options ['('] [')']

/-- A body that does not end with a blank, and that ends with a backslash only if it is what
delimiters outside hold between them. -/
structure EndsWell (options : Options) (document : Painted) (body : List Char) : Prop where
  solid : ∃ last, body.getLast? = some last ∧ Text.isBlank last = false
  escaped : body.getLast? = some '\\' → ∃ opening inside closing,
    Delimits options opening closing ∧ body = Text.strip inside ∧
      Painted.outside (opening ++ inside ++ closing) <:+: document

namespace EndsWell

variable {options : Options} {document : Painted}

theorem of_last {body : List Char} {last : Char} (final : body.getLast? = some last)
    (solid : Text.isBlank last = false) (bare : last ≠ '\\') : EndsWell options document body := by
  refine ⟨⟨last, final, solid⟩, fun backslash => ?_⟩
  rw [final, Option.some.injEq] at backslash
  exact absurd backslash bare

theorem strip {opening inside closing : List Char} (delimits : Delimits options opening closing)
    (filled : Text.strip inside ≠ [])
    (found : Painted.outside (opening ++ inside ++ closing) <:+: document) :
    EndsWell options document (Text.strip inside) := by
  obtain ⟨init, last, split⟩ := (List.eq_nil_or_concat' _).resolve_left filled
  have final : (Text.strip inside).getLast? = some last := by
    rw [split, List.getLast?_concat]
  exact ⟨⟨last, final, Text.not_isBlank_getLast_strip final⟩,
    fun _ => ⟨opening, inside, closing, delimits, rfl, found⟩⟩

theorem token {text : List Char} (isToken : IsToken text) : EndsWell options document text := by
  obtain ⟨last, final, solid⟩ := isToken.isSolid.last
  refine .of_last final solid ?_
  rintro rfl
  cases isToken with
  | command command => simp [command.last] at final
  | script _ _ ends =>
      rw [List.getLast?_concat, Option.some.injEq] at final
      rw [final] at ends
      exact absurd ends (by decide)

end EndsWell

theorem Delimits.isUnbroken {options : Options} {opening closing inside : List Char}
    (delimits : Delimits options opening closing) (onLine : '\n' ∉ inside) :
    Text.IsUnbroken (opening ++ inside ++ closing) := by
  refine ⟨?_, ?_⟩
  · cases delimits <;> simpa using onLine
  · cases delimits <;>
      rw [List.getLast?_append_of_ne_nil _ (List.cons_ne_nil _ _)] <;> decide

theorem freeOf_displayBlock (newline indent body : List Char) (previous next : Option Char) :
    Painted.FreeOf .inline (Piece.paint (displayBlock newline indent body previous next)) := by
  have outer (edge : Bool) :
      Painted.FreeOf .inline (Piece.paint (if edge then [Region.outside newline] else [])) := by
    cases edge with
    | false => simp [Painted.FreeOf]
    | true => exact Painted.freeOf_paint (by simp [Region.outside])
  rw [displayBlock, Piece.paint_append, Piece.paint_eq_append]
  exact (outer _).append (.append (Painted.freeOf_paint (by simp [Region.display])) (outer _))

theorem Stage.Replaces.rows {options : Options} {stage : Stage}
    (enabled : stage.isEnabled options = true) {before after : Option Char} {text : List Char}
    {regions : List Region} (replaced : stage.Replaces before text regions after)
    {document : Painted}
    (found : Text.IsUnbroken text → Painted.outside text <:+: document) :
    Rows (EndsWell options document) (Piece.paint regions) := by
  have block (newline indent body : List Char) (previous next : Option Char) :
      Rows (EndsWell options document)
        (Piece.paint (displayBlock newline indent body previous next)) :=
    .of_freeOf (freeOf_displayBlock newline indent body previous next)
  have enclosed {opening inside closing : List Char} (delimits : Delimits options opening closing)
      (textEq : opening ++ inside ++ closing = text) (filled : Text.strip inside ≠ [])
      (onLine : '\n' ∉ inside) :
      Rows (EndsWell options document) (Piece.paint [Region.dollars (Text.strip inside)]) := by
    subst textEq
    exact .single (.strip delimits filled (found (delimits.isUnbroken onLine)))
  cases replaced with
  | squares _ _ => exact block _ _ _ _ _
  | squareLines _ _ _ _ _ _ => exact block _ _ _ _ _
  | parens filled onLine => exact enclosed .escaped rfl filled onLine
  | padded filled _ onLine => exact enclosed .padded rfl filled onLine
  | environment _ _ _ => exact block _ _ _ _ _
  | hangingEnvironment _ _ _ _ =>
      rw [Piece.paint_eq_append]
      refine .append (.of_freeOf (Painted.freeOf_paint ?_)) (block _ _ _ _ _)
      simp [Region.outside]
  | formula _ _ _ _ _ => exact .of_freeOf (Painted.freeOf_paint (by simp [Region.display]))
  | squareSpan filled onLine => exact enclosed (.squares enabled) rfl filled onLine
  | parenSpan filled onLine => exact enclosed (.parens enabled) rfl filled onLine
  | @degree digit others _ _ _ _ _ _ =>
      have final : (digit :: others ++ degreeSign).getLast? = some '}' :=
        List.getLast?_append_of_ne_nil _ (by simp [degreeSign])
      exact .single (.of_last final (by decide) (by decide))
  | token isToken => exact .single (.token isToken)
  | blankLine _ _ _ => exact .nil

namespace InlineMath

inductive Spans : Replacement
  | span {body last before after} : body.getLast? = some last → Text.isBlank last = false →
      last ≠ '\\' → Spans before ('$' :: body ++ ['$']) [Region.dollars body] after

theorem substitutes_span :
    Substitutes span (fun _ taken _ _ => some [⟨.inline, taken⟩]) Spans := by
  intro previous text size value found
  unfold span at found
  split at found
  next rest =>
    split at found
    next => simp at found
    next =>
      dsimp only at found
      split at found
      next after opened =>
        split at found
        next tight =>
          simp only [Option.some.injEq, Prod.mk.injEq, and_true] at found
          simp only [Bool.and_eq_true, Option.any_eq_true, bne_iff_ne, Bool.not_eq_true'] at tight
          obtain ⟨⟨_, last, final, solid, bare⟩, _⟩ := tight
          have whole := List.takeWhile_append_dropWhile
            (p := fun char => char != '$' && char != '\n') (l := rest)
          generalize rest.takeWhile _ = body at whole opened final found
          rw [← whole, List.drop_left] at opened
          subst found
          refine ⟨'$' :: body ++ ['$'], after, ?_, by simp, by simp, ?_⟩
          · rw [← whole, opened]
            simp
          · intro before after regions _ built
            simp only [Option.some.injEq] at built
            subst built
            exact .span final solid bare
        next => simp at found
      next => simp at found
  next => simp at found

theorem rows_split {options : Options} {document : Painted} {regions : List Region}
    (fused : Piece.IsFused regions) (free : Painted.FreeOf .inline (Piece.paint regions)) :
    Rows (EndsWell options document) (Piece.paint (split regions)) := by
  refine (Rows.of_freeOf free).revised (passes_substitution substitutes_span fused).revised ?_
  intro before text made after spans
  cases spans with
  | span final solid bare => exact .single (.of_last final solid bare)

end InlineMath

theorem Document.rows_regions (options : Options) (document : Painted) (text : List Char) :
    Rows (EndsWell options document) (Piece.paint (regions text)) := by
  rw [regions, Piece.paint_fuse]
  induction Fence.split text with
  | nil => exact .nil
  | cons segment segments ih =>
      rw [List.flatMap_cons, Piece.paint_append]
      refine .append ?_ ih
      unfold segmentRegions
      split
      next => exact .of_freeOf (Painted.freeOf_paint (by simp [Region.code]))
      next =>
        unfold proseRegions
        split
        next => exact .of_freeOf (Painted.freeOf_paint (by simp [Region.link]))
        next =>
          refine InlineMath.rows_split (DisplayMath.isFused_split (Piece.isFused_fuse _)) ?_
          exact DisplayMath.freeOf_split (by decide) (by decide)
            (freeOf_linkedRegions (by decide) (by decide) (by decide) segment.text)

/-- Inline math of a converted document ends with a dollar that no blank precedes. A backslash
precedes it only where delimiters of the document hold a body that ends with one. -/
theorem inline_convertedRegions (options : Options) (text : List Char) {region : Region}
    (member : region ∈ convertedRegions options text) (isInline : region.kind = .inline) :
    ∃ front body, region.text = front ++ ('$' :: body ++ ['$']) ∧
      (∃ last, body.getLast? = some last ∧ Text.isBlank last = false) ∧
      (body.getLast? = some '\\' → ∃ opening inside closing, Delimits options opening closing ∧
        body = Text.strip inside ∧ ∃ source ∈ Document.regions text, source.kind = .outside ∧
          opening ++ inside ++ closing <:+: source.text) := by
  have rows : Rows (EndsWell options (Piece.paint (Document.regions text)))
      (Piece.paint (convertedRegions options text)) := by
    refine (preserved_convertedRegions (motive := fun painted =>
      Rows (EndsWell options (Piece.paint (Document.regions text))) painted ∧
        ∀ stretch, Text.IsUnbroken stretch → Painted.outside stretch <:+: painted →
          Painted.outside stretch <:+: Piece.paint (Document.regions text)) ?_ ?_).1
    · intro stage enabled old new revised kept
      refine ⟨kept.1.revised (revised.within List.infix_rfl) ?_, fun stretch unbroken found => ?_⟩
      · intro _ taken _ _ replaced
        exact replaced.1.rows enabled fun unbroken => kept.2 taken unbroken replaced.2
      · exact kept.2 stretch unbroken ((revised.stretches stage.walled unbroken).1 found)
    · exact ⟨Document.rows_regions options _ text, fun _ _ found => found⟩
  obtain ⟨front, body, endsWell, textEq⟩ :=
    rows.ends (isFused_convertedRegions options text) member isInline
  refine ⟨front, body, textEq, endsWell.solid, fun backslash => ?_⟩
  obtain ⟨opening, inside, closing, delimits, bodyEq, found⟩ := endsWell.escaped backslash
  have filled : opening ++ inside ++ closing ≠ [] := by cases delimits <;> simp
  exact ⟨opening, inside, closing, delimits, bodyEq,
    (Piece.isFused_fuse _).exists_outside filled found⟩

theorem inline_convertedRegions_parens :
    ∃ front body, "$x$".toList = front ++ ('$' :: body ++ ['$']) ∧
      (∃ last, body.getLast? = some last ∧ Text.isBlank last = false) ∧
      (body.getLast? = some '\\' → ∃ opening inside closing, Delimits {} opening closing ∧
        body = Text.strip inside ∧ ∃ source ∈ Document.regions "\\(x\\)".toList,
          source.kind = .outside ∧ opening ++ inside ++ closing <:+: source.text) := by
  have member : Region.dollars "x".toList ∈ convertedRegions {} "\\(x\\)".toList := by
    decide +kernel
  exact inline_convertedRegions {} "\\(x\\)".toList member rfl

/-- The body of escaped parentheses may end with a space that LaTeX escapes, and then loses it. -/
theorem inline_convertedRegions_ne :
    ∃ region ∈ convertedRegions {} "\\(a\\ \\)".toList, region.kind = .inline ∧
      region.text = "$a\\$".toList := by
  decide +kernel

end DollarMath
