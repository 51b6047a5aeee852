import DollarMath.Proofs.Conversion.Stretches
import DollarMath.Proofs.Region.Survives
import DollarMath.Proofs.Text.InlineLink

/-!
Links inside of lines. The brackets of a link are no plain brackets around math, since a target
follows the label, and no other conversion starts or ends inside of a link, escaped square brackets
and bare letters with an index apart. So a link comes through outside, or in math with what is around
it.
-/

namespace DollarMath

theorem Text.not_isDecimal_of_isAlpha {char : Char} (alphabetic : char.isAlpha = true) :
    isDecimal char = false := by
  have alphanumeric : char.isAlphanum = true := by simp [Char.isAlphanum, alphabetic]
  have bounds := toNat_of_isAlphanum alphanumeric
  rw [isDecimal, if_pos (by omega)]
  have ranges : (decide (65 ≤ char.val ∧ char.val ≤ 90) ||
      (decide (97 ≤ char.val) && decide (char.val ≤ 122))) = true := alphabetic
  simp only [Bool.or_eq_true, Bool.and_eq_true, decide_eq_true_eq, UInt32.le_iff_toNat_le,
    UInt32.reduceToNat] at ranges
  suffices apart : (decide (48 ≤ char.val) && decide (char.val ≤ 57)) = false from apart
  simp only [Bool.and_eq_false_iff, decide_eq_false_iff_not, UInt32.le_iff_toNat_le,
    UInt32.reduceToNat]
  omega

/-- The texts that start as display math in escaped brackets does, or as a letter with an index
does. -/
inductive Stage.Exempt : Stage → List Char → Prop
  | squares (rest) : Exempt .delimiters ('\\' :: '[' :: rest)
  | index {letter} (rest) : letter.isAlpha = true → Exempt .bareTokens (letter :: rest)

theorem Stage.Exempt.append {stage : Stage} {text : List Char} (exempt : stage.Exempt text)
    (rest : List Char) : stage.Exempt (text ++ rest) := by
  cases exempt with
  | squares inside => exact .squares (inside ++ rest)
  | index others alphabetic => exact .index (others ++ rest) alphabetic

structure Stage.Calm (stage : Stage) (before : Option Char) (text : List Char)
    (regions : List Region) (after : Option Char) : Prop where
  replaced : stage.Replaces before text regions after
  calm : ¬ stage.Exempt text

theorem Substitutes.calm {α : Type} {recognize : Text.Recognizer α} {build : Build α}
    {stage : Stage} (substitutes : Substitutes recognize build stage.Replaces)
    (missed : ∀ previous text, stage.Exempt text → recognize previous text = none) :
    Substitutes recognize build stage.Calm := by
  refine substitutes.strengthen fun previous text size value _ _ _ found _ replaced =>
    ⟨replaced, fun exempt => ?_⟩
  have whole := exempt.append (text.drop size)
  rw [List.take_append_drop] at whole
  rw [missed previous text whole] at found
  simp at found

section Exempt

variable (previous : Option Char) (text : List Char)

theorem Delimiters.bracketLines_of_exempt (exempt : Stage.Exempt .delimiters text) :
    bracketLines previous text = none := by
  cases exempt with
  | squares rest => simp [bracketLines, Text.isIndent]

theorem Delimiters.escapedParens_of_exempt (exempt : Stage.Exempt .delimiters text) :
    escapedParens previous text = none := by
  cases exempt with
  | squares rest => rfl

theorem Delimiters.paddedDollars_of_exempt (exempt : Stage.Exempt .delimiters text) :
    paddedDollars previous text = none := by
  cases exempt with
  | squares rest => rfl

theorem BareTokens.degree_of_exempt (exempt : Stage.Exempt .bareTokens text) :
    degree previous text = none := by
  cases exempt with
  | @index letter rest alphabetic =>
      have notDecimal := Text.not_isDecimal_of_isAlpha alphabetic
      simp [degree, number?, notDecimal]

theorem BareTokens.rootOrFraction_of_exempt (outer next : Option Char)
    (exempt : Stage.Exempt .bareTokens text) : rootOrFraction outer next previous text = none := by
  cases exempt with
  | @index letter rest alphabetic =>
      have other : letter ≠ '\\' := by
        rintro rfl
        exact absurd alphabetic (by decide)
      simp [rootOrFraction, afterMacro?, other]

end Exempt

section Degree

variable {digit char : Char} {others sign : List Char}

theorem not_mem_number (decimal : Text.isDecimal digit = true)
    (digits : ∀ own ∈ others, Text.isDecimal own = true ∨ own = '.')
    (other : Text.isDecimal char = false) (noPoint : char ≠ '.') : char ∉ digit :: others := by
  intro member
  have own : Text.isDecimal char = true ∨ char = '.' := by
    rcases List.mem_cons.mp member with rfl | later
    · exact .inl decimal
    · exact digits char later
  rcases own with found | point
  · rw [found] at other
    exact absurd other (by decide)
  · exact noPoint point

theorem not_mem_degree (decimal : Text.isDecimal digit = true)
    (signs : sign = ['^', '\\', 'c', 'i', 'r', 'c'] ∨ sign = degreeSign)
    (digits : ∀ own ∈ others, Text.isDecimal own = true ∨ own = '.') :
    '[' ∉ digit :: others ++ sign := by
  intro member
  rcases List.mem_append.mp member with inNumber | inSign
  · exact not_mem_number decimal digits (by decide) (by decide) inNumber
  · rcases signs with rfl | rfl
    · exact absurd inSign (by decide)
    · exact absurd inSign (by decide)

end Degree

namespace InlineLink

variable (link : InlineLink) {stage : Stage} {before after : Option Char} {regions : List Region}

section Cut

variable {link} {front back : List Char}

theorem Cut.not_starts (cut : link.Cut front back) {taken rest : List Char} (filled : taken ≠ [])
    (starts : taken <+: back ++ rest) : ¬ stage.Calm front.getLast? taken regions after := by
  rintro ⟨replaced, calm⟩
  have head : taken.head? = back.head? := by
    obtain ⟨first, others, rfl⟩ := List.exists_cons_of_ne_nil filled
    obtain ⟨char, back, rfl⟩ := List.exists_cons_of_ne_nil cut.backFilled
    rw [List.cons_append, List.cons_prefix_cons] at starts
    rw [starts.1]
    rfl
  have notHead (char : Char) (other : isLinkChar char = false) : taken.head? ≠ some char :=
    fun first => cut.not_mem_back other (List.mem_of_mem_head? (head ▸ first))
  have inLine : ¬ StartsLine front.getLast? := by
    rintro (absent | feed)
    · exact cut.frontFilled (List.getLast?_eq_none_iff.mp absent)
    · exact cut.not_mem_front (by decide) (List.mem_of_getLast? feed)
  cases replaced with
  | squares _ _ => exact calm (.squares _)
  | squareLines _ _ atStart _ _ _ _ => exact inLine atStart
  | parens _ _ => exact notHead '\\' (by decide) rfl
  | padded _ _ _ => exact notHead '$' (by decide) rfl
  | environment _ command indents =>
      obtain ⟨body, rfl⟩ := List.head?_eq_some_iff.mp command.first
      exact absurd (indents _ (cut.paren_before_wall (by decide) starts)) (by decide)
  | hangingEnvironment _ command _ indents =>
      obtain ⟨body, rfl⟩ := List.head?_eq_some_iff.mp command.first
      exact absurd (indents _ (cut.paren_before_wall (by decide) starts)) (by decide)
  | formula _ _ _ atStart _ => exact inLine atStart
  | squareSpan _ _ _ _ => exact cut.square_front.2 (List.mem_of_mem_head? head.symm)
  | parenSpan _ _ _ label => exact label (cut.seam.mpr head.symm)
  | @degree digit others sign _ _ decimal signs digits =>
      have wall : ∃ tail, sign = '^' :: tail := by
        rcases signs with rfl | rfl
        · exact ⟨_, rfl⟩
        · exact ⟨_, rfl⟩
      obtain ⟨tail, rfl⟩ := wall
      exact not_mem_number decimal digits (by decide) (by decide)
        (cut.paren_before_wall (by decide) starts)
  | token token =>
      cases token with
      | command command => exact notHead '\\' (by decide) command.first
      | script alphabetic _ _ => exact calm (.index _ alphabetic)
  | blankLine _ atStart _ => exact inLine atStart

theorem Cut.not_finishes (cut : link.Cut front back) {lead : List Char} :
    ¬ stage.Calm before (lead ++ front) regions back.head? := by
  rintro ⟨replaced, calm⟩
  have last : (lead ++ front).getLast? = front.getLast? :=
    List.getLast?_append_of_ne_nil lead cut.frontFilled
  have square : '[' ∈ lead ++ front := by simp [cut.square_front.1]
  have notLast (char : Char) (other : char ∉ front) : (lead ++ front).getLast? ≠ some char :=
    fun final => other (List.mem_of_getLast? (last ▸ final))
  have notBrace := notLast '}' (cut.not_mem_front (by decide))
  have notParen := notLast ')' cut.paren_back.2
  generalize takenEq : lead ++ front = taken at *
  cases replaced with
  | squares _ _ => exact calm (.squares _)
  | @squareLines newline left lead' inside trail right _ _ _ _ _ indents blanks _ broken =>
      obtain ⟨upper, lower, rfl⟩ := List.append_of_mem broken
      have split : lead ++ front = (left ++ '[' :: lead' ++ inside ++ upper) ++
          '\n' :: (lower ++ ']' :: right) := by
        simp [takenEq]
      rcases List.mem_append.mp (cut.square_after_wall (by decide) split) with inLower | inRight
      · exact absurd (blanks '[' (by simp [inLower])) (by decide)
      · have indent : '[' ∈ right := by simpa using inRight
        exact absurd (indents '[' (by simp [indent])) (by decide)
  | parens _ _ => exact notParen (List.getLast?_append_of_ne_nil _ (by simp))
  | padded _ _ _ => exact notLast '$' (cut.not_mem_front (by decide)) List.getLast?_concat
  | environment _ command _ =>
      exact notBrace (by rw [List.getLast?_append_of_ne_nil _ command.isSolid.ne_nil, command.last])
  | hangingEnvironment _ command _ _ =>
      exact notBrace (by rw [List.getLast?_append_of_ne_nil _ command.isSolid.ne_nil, command.last])
  | formula _ _ _ _ ends =>
      obtain ⟨char, rest, rfl⟩ := List.exists_cons_of_ne_nil cut.backFilled
      have own := cut.isLinkChar_back char (by simp)
      have ret : char = '\r' ∨ char = '\n' := by simpa [Text.isReturn] using ends
      rcases ret with rfl | rfl
      · exact absurd own (by decide)
      · exact absurd own (by decide)
  | squareSpan _ _ _ noTarget => exact noTarget (cut.seam.mp (last ▸ List.getLast?_concat))
  | parenSpan _ _ _ _ => exact notParen List.getLast?_concat
  | degree decimal signs digits => exact not_mem_degree decimal signs digits square
  | token token =>
      cases token with
      | command command => exact notBrace command.last
      | script alphabetic _ _ => exact calm (.index _ alphabetic)
  | blankLine blank _ _ => exact absurd (List.all_eq_true.mp blank _ square) (by decide)

end Cut

variable {link} {lead trail text : List Char}

theorem holds_dollars (found : link.text <:+: text) :
    Painted.Holds link.text (Piece.paint [Region.dollars text]) :=
  Painted.holds_region (List.mem_singleton.mpr rfl) (found.trans ⟨['$'], ['$'], rfl⟩)

theorem holds_displayBlock (newline indent : List Char) (found : link.text <:+: text) :
    Painted.Holds link.text (Piece.paint (displayBlock newline indent text before after)) := by
  have inBlock : Region.display (indent ++ ['$', '$'] ++ newline ++ indent ++ text ++ newline ++
      (indent ++ ['$', '$'])) ∈ displayBlock newline indent text before after := by
    simp [displayBlock]
  refine Painted.holds_region inBlock (found.trans ?_)
  exact ⟨indent ++ ['$', '$'] ++ newline ++ indent, newline ++ (indent ++ ['$', '$']), by
    simp [Region.display]⟩

theorem holds_of_calm (calm : stage.Calm before (lead ++ link.text ++ trail) regions after) :
    Painted.Holds link.text (Piece.paint regions) := by
  obtain ⟨replaced, calm⟩ := calm
  have found : link.text <:+: lead ++ link.text ++ trail := ⟨lead, trail, rfl⟩
  have notNil : ¬ link.text <:+: [] := fun inNil => link.text_ne_nil (List.infix_nil.mp inNil)
  have square : '[' ∈ link.text := by simp [InlineLink.text]
  generalize takenEq : lead ++ link.text ++ trail = taken at *
  cases replaced with
  | squares _ _ => exact absurd (.squares _) calm
  | squareLines _ _ _ indents blanks opened closed =>
      exact holds_displayBlock _ _ (infix_strip (infix_of_lines indents blanks opened closed found))
  | parens _ _ =>
      rcases infix_of_wall (infix_of_cons (by decide) found) (link.not_mem_text (by decide)) with
        inside | inNil
      · exact holds_dollars (infix_strip (infix_of_cons (by decide) inside))
      · exact absurd (infix_of_cons (by decide) inNil) notNil
  | padded _ _ _ =>
      have inside := infix_of_concat (by decide) (infix_of_cons (by decide) found)
      exact holds_dollars (infix_strip inside)
  | environment _ _ indents => exact holds_displayBlock _ _ (infix_of_indent indents found)
  | hangingEnvironment _ _ _ indents =>
      rw [Piece.paint_eq_append]
      exact Painted.Holds.mono (List.suffix_append _ _).isInfix
        (holds_displayBlock _ _ (infix_of_indent indents found))
  | @formula newline _ _ _ _ _ _ _ _ =>
      obtain ⟨right, whole, blank⟩ := Text.exists_dropRightWhile Text.isBlank taken
      rw [whole, ← List.nil_append (Text.dropRightWhile _ _), List.append_assoc] at found
      have kept : link.text <:+: Text.stripRight taken :=
        Text.infix_of_blanks (by simp) blank (by decide) (by decide) found
      exact Painted.holds_region (List.mem_singleton.mpr rfl)
        (kept.trans ⟨['$', '$'] ++ newline, newline ++ ['$', '$'], by simp [Region.display]⟩)
  | @squareSpan inside _ _ _ _ encloses _ =>
      cases lead with
      | nil => exact absurd encloses (not_encloses_squares takenEq)
      | cons first lead =>
          have others : lead ++ link.text ++ trail = inside ++ [']'] := (List.cons.inj takenEq).2
          have inside : link.text <:+: inside ++ [']'] := ⟨lead, trail, others⟩
          exact holds_dollars (infix_strip (infix_of_concat (by decide) inside))
  | @parenSpan inside _ _ _ _ encloses _ =>
      have inRest := infix_of_cons (by decide) found
      rcases List.infix_concat_iff.mp inRest with ⟨front, whole⟩ | inside
      · exact absurd encloses (not_encloses_parens whole)
      · exact holds_dollars (infix_strip inside)
  | degree decimal signs digits =>
      exact absurd (found.subset square) (not_mem_degree decimal signs digits)
  | token _ => exact holds_dollars found
  | blankLine blank _ _ =>
      exact absurd (List.all_eq_true.mp blank '[' (found.subset square)) (by decide)

theorem spares (link : InlineLink) : Spares stage.Calm link.text where
  start split frontFilled backFilled filled starts :=
    Cut.not_starts ⟨split, frontFilled, backFilled⟩ filled starts
  finish split frontFilled backFilled := Cut.not_finishes ⟨split, frontFilled, backFilled⟩
  inside := holds_of_calm

theorem spares_escapedSquares (link : InlineLink) :
    Text.Recognizer.Spares Delimiters.escapedSquares link.text where
  takes := (Delimiters.substitutes_escapedSquares (.inl rfl)).takes
  start := by
    intro before front back rest split filled
    obtain ⟨first, back, rfl⟩ := List.exists_cons_of_ne_nil filled
    have other : first ≠ '\\' := by
      rintro rfl
      have member : '\\' ∈ link.text := by simp [split]
      exact link.not_mem_text (by decide) member
    simp [Delimiters.escapedSquares, other]
  finish := by
    intro before lead front back rest value split frontFilled backFilled found
    have cut : link.Cut front back := ⟨split, frontFilled, backFilled⟩
    obtain ⟨left, whole, size⟩ := Delimiters.escapedSquares_eq_some found
    have taken := (List.append_inj whole (by simpa using size)).1
    have ends : lead ++ front = (['\\', '['] ++ value) ++ '\\' :: [']'] := taken
    exact absurd (cut.square_after_wall (by decide) ends) (by decide)

end InlineLink

namespace Text

theorem missed_of_scan {α : Type} {recognize : Recognizer α} {before : Option Char}
    {front back : List Char} (backFilled : back ≠ [])
    (absent : (scan recognize before (front ++ back)).filterMap Found.hit? = []) :
    recognize (lastOr before front) back = none := by
  have missed {before : Option Char} {char : Char} {rest : List Char}
      (absent : (scan recognize before (char :: rest)).filterMap Found.hit? = []) :
      recognize before (char :: rest) = none := by
    cases found : recognize before (char :: rest) with
    | none => rfl
    | some find =>
        rw [scan, found] at absent
        simp [Found.hit?] at absent
  induction front generalizing before with
  | nil =>
      obtain ⟨char, rest, rfl⟩ := List.exists_cons_of_ne_nil backFilled
      exact missed absent
  | cons char front ih =>
      rw [List.cons_append] at absent
      rw [scan_of_none (missed absent)] at absent
      exact ih absent

end Text

namespace BareTokens

theorem afterScript?_of_bare {text : List Char} (bare : text.head? ≠ some '{') :
    afterScript? text = if (text.dropWhile Char.isAlphanum).length < text.length then
      some (text.dropWhile Char.isAlphanum) else none := by
  unfold afterScript?
  split
  next => exact absurd rfl bare
  next => rfl

theorem endsScript_append {text : List Char} (filled : text ≠ []) (rest : List Char) :
    endsScript (text ++ rest) = endsScript text := by
  obtain ⟨char, text, rfl⟩ := List.exists_cons_of_ne_nil filled
  rfl

theorem script_of_other {letter : Char} (other : letter.isAlpha = false) (previous : Option Char)
    (rest : List Char) : script previous (letter :: rest) = none := by
  cases rest <;> simp [script, other]

theorem dropWhile_before_close (text rest : List Char) :
    (text ++ ')' :: rest).dropWhile Char.isAlphanum =
      text.dropWhile Char.isAlphanum ++ [')'] ++ rest := by
  rw [List.dropWhile_append]
  split
  next empty =>
    rw [List.isEmpty_iff.mp empty]
    rfl
  next => simp

theorem afterScript?_before_close {text : List Char} (bare : '{' ∉ text) (rest : List Char) :
    afterScript? (text ++ ')' :: rest) =
      if (text.dropWhile Char.isAlphanum).length < text.length then
        some (text.dropWhile Char.isAlphanum ++ [')'] ++ rest) else none := by
  have noBrace : (text ++ ')' :: rest).head? ≠ some '{' := by
    cases text with
    | nil => simp
    | cons char text =>
        simp only [List.cons_append, List.head?_cons, ne_eq, Option.some.injEq]
        rintro rfl
        exact bare (by simp)
  rw [afterScript?_of_bare noBrace, dropWhile_before_close]
  simp

theorem script_append (previous : Option Char) {text : List Char} (bare : '{' ∉ text)
    (rest : List Char) :
    script previous (text ++ ')' :: rest) = script previous (text ++ [')']) := by
  match text, bare with
  | [], _ => cases rest <;> simp [script]
  | [letter], _ => simp [script]
  | letter :: mark :: others, bare =>
      have noBrace : '{' ∉ others := fun brace => bare (by simp [brace])
      have ends := endsScript_append
        (List.concat_ne_nil ')' (others.dropWhile Char.isAlphanum)) rest
      have size : ((letter :: mark :: others) ++ ')' :: rest).length -
          (others.dropWhile Char.isAlphanum ++ [')'] ++ rest).length =
          ((letter :: mark :: others) ++ [')']).length -
            (others.dropWhile Char.isAlphanum ++ [')']).length := by
        simp
        omega
      simp only [List.cons_append] at size ⊢
      simp only [script, afterScript?_before_close noBrace, List.append_nil]
      by_cases some : (others.dropWhile Char.isAlphanum).length < others.length
      · rw [if_pos some, if_pos some, Option.bind_some, Option.bind_some, ends, size]
      · rw [if_neg some, if_neg some, Option.bind_none, Option.bind_none]

end BareTokens

namespace InlineLink

variable {link : InlineLink}

theorem spares_script (bare : Text.findAll BareTokens.script link.text = []) :
    Text.Recognizer.Spares BareTokens.script link.text where
  takes := BareTokens.substitutes_script.takes
  start := by
    intro before front back rest split backFilled
    by_cases frontFilled : front = []
    · rw [frontFilled, List.nil_append] at split
      rw [← split]
      exact BareTokens.script_of_other (by decide) _ _
    · have cut : link.Cut front back := ⟨split, frontFilled, backFilled⟩
      have missed := Text.missed_of_scan backFilled (split ▸ bare)
      have plain : '{' ∉ back := cut.not_mem_back (by decide)
      obtain ⟨init, rfl⟩ := List.getLast?_eq_some_iff.mp cut.paren_back.1
      rw [Text.lastOr_of_ne_nil frontFilled] at missed ⊢
      rw [List.append_assoc, List.singleton_append,
        BareTokens.script_append _ fun brace => plain (by simp [brace])]
      exact missed
  finish := by
    intro before lead front back rest value split frontFilled backFilled found
    have cut : link.Cut front back := ⟨split, frontFilled, backFilled⟩
    obtain ⟨letter, mark, body, left, whole, size, isLetter, isMark, isIndex⟩ :=
      BareTokens.script_eq_some found
    have taken := (List.append_inj whole (by simpa using size)).1
    have member : '[' ∈ letter :: mark :: body := by simp [← taken, cut.square_front.1]
    cases isIndex with
    | run _ own =>
        rcases List.mem_cons.mp member with rfl | later
        · exact absurd isLetter (by decide)
        · rcases List.mem_cons.mp later with rfl | inBody
          · exact absurd isMark (by decide)
          · exact absurd (own _ inBody) (by decide)
    | braces inside =>
        have last : (lead ++ front).getLast? = some '}' := by
          rw [taken, ← List.cons_append, ← List.cons_append]
          exact List.getLast?_concat
        rw [List.getLast?_append_of_ne_nil lead frontFilled] at last
        exact cut.not_mem_front (by decide) (List.mem_of_getLast? last)

/-- Display math that goes over a link holds it, unless the bracket of the link is the one that
opens it. -/
theorem holds_escapedSquares {newline lead trail left value : List Char}
    {previous before after : Option Char} {regions : List Region}
    (found : Delimiters.escapedSquares previous (lead ++ (link.text ++ trail) ++ left) =
      some ((lead ++ (link.text ++ trail)).length, value))
    (filled : lead ≠ []) (unescaped : lead.length ≠ 1)
    (built : Delimiters.toDisplay newline before (lead ++ (link.text ++ trail)) value after =
      some regions) : Painted.Holds link.text (Piece.paint regions) := by
  obtain ⟨_, whole, size⟩ := Delimiters.escapedSquares_eq_some found
  have taken := (List.append_inj whole (by simpa using size)).1
  have inBody : link.text <:+: value := by
    match lead, filled, unescaped with
    | first :: second :: lead, _, _ =>
        simp only [List.cons_append, List.nil_append, List.cons.injEq] at taken
        have inRest : link.text <:+: value ++ '\\' :: [']'] :=
          ⟨lead, trail, by rw [← taken.2.2, List.append_assoc]⟩
        refine (infix_of_wall inRest (link.not_mem_text (by decide))).resolve_right fun inEnd => ?_
        have square : '[' ∈ [']'] := inEnd.subset (by simp [InlineLink.text])
        exact absurd square (by decide)
  unfold Delimiters.toDisplay at built
  dsimp only at built
  split at built
  next => simp at built
  next =>
    simp only [Option.some.injEq] at built
    rw [← built]
    exact holds_displayBlock _ _ (infix_strip inBody)

theorem holds_normalize {regions : List Region} {region : Region} (member : region ∈ regions)
    {front rest : List Char} (whole : region.text = front ++ (link.text ++ rest))
    (unescaped : ∀ span ∈ Text.hitSpans 0 (Text.scan Delimiters.escapedSquares none region.text),
      span.start + 1 ≠ front.length) :
    Painted.Holds link.text (Piece.paint (Delimiters.normalize regions)) := by
  have lineEnd := isLineEnd_lineEnding (Piece.join regions)
  unfold Delimiters.normalize
  generalize lineEnding (Piece.join regions) = newline at lineEnd
  dsimp only
  have squares : Painted.Holds link.text (Piece.paint (reviseOutside
      (substitution Delimiters.escapedSquares (Delimiters.toDisplay newline)) regions)) := by
    refine holds_reviseOutside member ⟨front, rest, by simp [whole]⟩ ?_
    intro before after spans among
    have isNil : spans = [] := among.resolve_right (by simp)
    rw [isNil, whole, reviseAround, if_neg (by simp [link.text_ne_nil])]
    refine holds_substitution link.spares_escapedSquares link.text_ne_nil before front rest after ?_
    intro _ lead _ _ _ span _ filled found inSpans start built
    refine holds_escapedSquares found filled (fun alone => ?_) built
    exact unescaped span (whole ▸ inSpans) (alone ▸ start)
  have fused := Piece.isFused_fuse (reviseOutsideAfter
    (substitution Delimiters.escapedSquares (Delimiters.toDisplay newline)) (fun _ => false) none
      regions [])
  have lines := passes_substitution
    ((Delimiters.substitutes_bracketLines lineEnd).calm Delimiters.bracketLines_of_exempt) fused
  have parens := passes_substitution
    (Delimiters.substitutes_escapedParens.calm Delimiters.escapedParens_of_exempt) lines.fused
  have padded := passes_substitution
    (Delimiters.substitutes_paddedDollars.calm Delimiters.paddedDollars_of_exempt) parens.fused
  have atLines := lines.revised.holds link.spares link.text_ne_nil squares
  have atParens := parens.revised.holds link.spares link.text_ne_nil atLines
  exact padded.revised.holds link.spares link.text_ne_nil atParens

theorem keeps_script (bare : Text.findAll BareTokens.script link.text = []) :
    Revision.Keeps (substitution BareTokens.script BareTokens.toInline) link.text := by
  intro before front rest after
  refine holds_substitution (spares_script bare) link.text_ne_nil before front rest after ?_
  intro _ lead trail _ _ _ _ _ _ _ _ built
  unfold BareTokens.toInline at built
  split at built
  next => simp at built
  next =>
    simp only [Option.some.injEq] at built
    rw [← built]
    exact holds_dollars ⟨lead, trail, by simp⟩

theorem holds_wrap (bare : Text.findAll BareTokens.script link.text = []) {regions : List Region}
    (fused : Piece.IsFused regions) (held : Painted.Holds link.text (Piece.paint regions)) :
    Painted.Holds link.text (Piece.paint (BareTokens.wrap regions)) := by
  have degrees := BareTokens.passes_pass (follows_of_substitutes
    (BareTokens.substitutes_degree.calm BareTokens.degree_of_exempt)) fused
  have macros : BareTokens.wrapMacros.Follows (Stage.Calm .bareTokens) := fun before text after =>
    ((BareTokens.substitutes_rootOrFraction before after).calm
      fun previous text => BareTokens.rootOrFraction_of_exempt previous text before after).revised
        before text after
  have wrapped := BareTokens.passes_pass macros degrees.fused
  have atDegrees := degrees.revised.holds link.spares link.text_ne_nil held
  have atMacros := wrapped.revised.holds link.spares link.text_ne_nil atDegrees
  have macrosFused := wrapped.fused
  have scripts := BareTokens.passes_pass (follows_of_substitutes BareTokens.substitutes_script)
    macrosFused
  cases atMacros with
  | @frozen own found spelled kept =>
      have notNil : own ≠ [] := by
        rintro rfl
        exact link.text_ne_nil spelled.symm
      exact .frozen (scripts.revised.keeps_frozen notNil kept found) spelled kept
  | outside found =>
      obtain ⟨region, member, _, inRegion⟩ := macrosFused.exists_outside link.text_ne_nil found
      exact (keeps_script bare).strayDollars link.text_ne_nil (link.not_mem_text (by decide)) member
        inRegion

theorem holds_run {stage : Stage} (later : stage ≠ .delimiters)
    (bare : stage = .bareTokens → Text.findAll BareTokens.script link.text = [])
    {regions : List Region} (fused : Piece.IsFused regions)
    (held : Painted.Holds link.text (Piece.paint regions)) :
    Painted.Holds link.text (Piece.paint (stage.run regions)) := by
  by_cases tokens : stage = .bareTokens
  · subst tokens
    exact holds_wrap (bare rfl) fused held
  · have calm (text : List Char) : ¬ stage.Exempt text := by
      intro exempt
      cases exempt with
      | squares => exact later rfl
      | index _ _ => exact tokens rfl
    have spares : Spares stage.Replaces link.text :=
      link.spares.of_imp fun replaced => ⟨replaced, calm _⟩
    exact Stage.preserved_run (motive := Painted.Holds link.text)
      (fun _ _ revised held => revised.holds spares link.text_ne_nil held) fused held

theorem holds_foldl {stages : List Stage} (later : ∀ stage ∈ stages, stage ≠ .delimiters)
    (bare : .bareTokens ∈ stages → Text.findAll BareTokens.script link.text = [])
    {regions : List Region} (fused : Piece.IsFused regions)
    (held : Painted.Holds link.text (Piece.paint regions)) :
    Painted.Holds link.text
      (Piece.paint (stages.foldl (fun regions stage => stage.run regions) regions)) := by
  induction stages generalizing regions with
  | nil => exact held
  | cons stage stages ih =>
      refine ih (fun other member => later other (by simp [member]))
        (fun member => bare (by simp [member])) (stage.isFused_run fused) ?_
      exact holds_run (later stage (by simp)) (fun own => bare (by simp [own])) fused held

end InlineLink

/-- A link within one region comes through, provided that no display math opens with its own bracket
and, where bare letters with an index are wrapped, that it holds none. -/
theorem link_infix_convert (options : Options) (text : List Char) (link : InlineLink)
    {region : Region} (member : region ∈ Document.regions text) {front rest : List Char}
    (whole : region.text = front ++ (link.text ++ rest))
    (unescaped : ∀ span ∈ Text.hitSpans 0 (Text.scan Delimiters.escapedSquares none region.text),
      span.start + 1 ≠ front.length)
    (bare : options.bareTokens = true → Text.findAll BareTokens.script link.text = []) :
    link.text <:+: convert options text := by
  have first : Stage.enabled options = .delimiters ::
      [.environments, .formulaLines, .squares, .parens, .bareTokens, .blankLines].filter
        (Stage.isEnabled options) := rfl
  have later : ∀ stage ∈ [.environments, .formulaLines, .squares, .parens, .bareTokens,
      .blankLines].filter (Stage.isEnabled options), stage ≠ Stage.delimiters := by
    rintro stage among rfl
    exact absurd (List.mem_filter.mp among).1 (by decide)
  have held := InlineLink.holds_normalize member whole unescaped
  have fused : Piece.IsFused (Stage.run .delimiters (Document.regions text)) :=
    Stage.isFused_run .delimiters (Piece.isFused_fuse _)
  have through := InlineLink.holds_foldl later (fun among => bare (List.mem_filter.mp among).2)
    fused held
  have inText := through.isInfix
  rw [Painted.text_paint] at inText
  rw [convert, convertedRegions, first]
  exact inText

/-- Escaped brackets elsewhere in the text are no matter, and the underscore in the target is not
that of a letter with an index. -/
theorem link_infix_convert_reference :
    "[the note](my_x.md)".toList <:+: convert { bareTokens := true }
      "\\[y\\] see [the note](my_x.md), \\(x\\) and a_1.".toList :=
  @link_infix_convert { bareTokens := true } _
    ⟨"the note".toList, "my_x.md".toList, by decide, by decide +kernel, by decide, by decide +kernel⟩
    (Region.outside "\\[y\\] see [the note](my_x.md), \\(x\\) and a_1.".toList) (by decide +kernel)
    "\\[y\\] see ".toList ", \\(x\\) and a_1.".toList (by decide +kernel) (by decide +kernel)
    fun _ => by decide +kernel

/-- Display math opens with the bracket of one link, and an index in the other is wrapped. -/
theorem link_not_infix_convert :
    (Document.regions "\\[a](b)\\]".toList = [Region.outside "\\[a](b)\\]".toList] ∧
        ¬ "[a](b)".toList <:+: convert {} "\\[a](b)\\]".toList) ∧
      Document.regions "see [this](x_1) now".toList =
          [Region.outside "see [this](x_1) now".toList] ∧
        ¬ "[this](x_1)".toList <:+:
          convert { bareTokens := true } "see [this](x_1) now".toList := by
  decide +kernel

end DollarMath
