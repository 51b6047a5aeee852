import DollarMath.Proofs.Conversion.LeftAlone
import DollarMath.Proofs.Document.Ordinary

/-!
Texts of words and of formulas between escaped parentheses. The default conversion puts each formula
between dollars, and what it gives back is read so that a second conversion changes nothing.
-/

namespace DollarMath

inductive Phrase where
  | words (text : List Char)
  | formula (inside : List Char)

namespace Phrase

def source : Phrase → List Char
  | words text => text
  | formula inside => ['\\', '('] ++ inside ++ ['\\', ')']

def region : Phrase → Region
  | words text => Region.outside text
  | formula inside => Region.dollars (Text.strip inside)

def sourceOf (phrases : List Phrase) : List Char :=
  phrases.flatMap source

def regionsOf (phrases : List Phrase) : List Region :=
  phrases.map region

/-- Phrases whose formulas stand on one line, do not end with a backslash, and are not followed by
what would keep the dollar after them from closing. -/
inductive AreTidy : List Phrase → Prop
  | nil : AreTidy []
  | words {text rest} : '\\' ∉ text → '$' ∉ text → AreTidy rest → AreTidy (.words text :: rest)
  | formula {inside last rest} : '$' ∉ inside → '\n' ∉ inside → ¬ ['\\', ')'] <:+: inside →
      (Text.strip inside).getLast? = some last → last ≠ '\\' →
      (∀ char, (Piece.join (regionsOf rest)).head? = some char →
        char ≠ '$' ∧ Text.isDecimal char = false) →
      AreTidy rest → AreTidy (.formula inside :: rest)

variable {phrases : List Phrase} {before : Option Char}

@[simp] theorem sourceOf_cons (phrase : Phrase) (phrases : List Phrase) :
    sourceOf (phrase :: phrases) = phrase.source ++ sourceOf phrases :=
  List.flatMap_cons

@[simp] theorem regionsOf_cons (phrase : Phrase) (phrases : List Phrase) :
    regionsOf (phrase :: phrases) = phrase.region :: regionsOf phrases :=
  List.map_cons

end Phrase

namespace Delimiters

theorem escapedParens_of_ne {char : Char} (other : char ≠ '\\') (before : Option Char)
    (rest : List Char) : escapedParens before (char :: rest) = none := by
  unfold escapedParens
  split
  next same => exact absurd (List.cons.inj same).1 other
  next => rfl

theorem splitAtFirst?_closing {inside : List Char} (free : ¬ ['\\', ')'] <:+: inside)
    (rest : List Char) :
    Text.splitAtFirst? ['\\', ')'] (inside ++ ['\\', ')'] ++ rest) = some (inside, rest) := by
  unfold Text.splitAtFirst?
  induction inside with
  | nil => simp [Text.splitWhere?, Text.afterWord?]
  | cons char inside ih =>
      have later := ih fun found => free (List.infix_cons found)
      have missed :
          Text.afterWord? ['\\', ')'] (char :: (inside ++ ['\\', ')'] ++ rest)) = none := by
        cases inside with
        | nil => simp [Text.afterWord?]
        | cons next inside =>
            have apart : ¬ (char = '\\' ∧ next = ')') := by
              rintro ⟨rfl, rfl⟩
              exact free ⟨[], inside, rfl⟩
            rw [Text.afterWord?, if_neg]
            simpa [@eq_comm _ '\\', @eq_comm _ ')'] using apart
      rw [List.cons_append, List.cons_append, Text.splitWhere?, missed, later]
      rfl

theorem escapedParens_formula {before : Option Char} {inside : List Char}
    (unescaped : before ≠ some '\\') (onLine : '\n' ∉ inside) (free : ¬ ['\\', ')'] <:+: inside)
    (rest : List Char) :
    escapedParens before ((Phrase.formula inside).source ++ rest) =
      some ((Phrase.formula inside).source.length, inside) := by
  have shape : (Phrase.formula inside).source ++ rest =
      '\\' :: '(' :: (inside ++ ['\\', ')'] ++ rest) := by simp [Phrase.source]
  have size : (Phrase.formula inside).source.length = inside.length + 4 := by simp [Phrase.source]
  rw [shape, size, escapedParens, splitAtFirst?_closing free rest]
  simp [unescaped, onLine]

end Delimiters

namespace InlineMath

theorem span_of_ne {char : Char} (other : char ≠ '$') (before : Option Char) (rest : List Char) :
    span before (char :: rest) = none := by
  unfold span
  split
  next same => exact absurd (List.cons.inj same).1 other
  next => rfl

theorem span_formula {before : Option Char} {body rest : List Char} {last : Char}
    (unescaped : before ≠ some '\\') (apart : before ≠ some '$') (free : '$' ∉ body)
    (onLine : '\n' ∉ body) (starts : ∀ first, body.head? = some first → Text.isBlank first = false)
    (final : body.getLast? = some last) (solid : Text.isBlank last = false) (bare : last ≠ '\\')
    (closes : ∀ char, rest.head? = some char → char ≠ '$' ∧ Text.isDecimal char = false) :
    span before ('$' :: body ++ ['$'] ++ rest) = some (('$' :: body ++ ['$']).length, ()) := by
  have own : ∀ char ∈ body, (char != '$' && char != '\n') = true := by
    intro char member
    simp only [Bool.and_eq_true, bne_iff_ne]
    exact ⟨ne_of_mem_of_not_mem member free, ne_of_mem_of_not_mem member onLine⟩
  have taken :
      (body ++ '$' :: rest).takeWhile (fun char => char != '$' && char != '\n') = body := by
    rw [List.takeWhile_append_of_pos own]
    simp
  have opened : (body.head?.any Text.isBlank) = false := by
    cases head : body.head? with
    | none => rfl
    | some first => exact starts first head
  have followed : (rest.head?.any fun char => char == '$' || Text.isDecimal char) = false := by
    cases head : rest.head? with
    | none => rfl
    | some char => simpa using closes char head
  have shape : '$' :: body ++ ['$'] ++ rest = '$' :: (body ++ '$' :: rest) := by simp
  rw [shape, span]
  simp [unescaped, apart, taken, opened, final, solid, bare, followed]

end InlineMath

namespace Phrase

variable {phrases : List Phrase} {before : Option Char}

theorem strip_ne_nil {inside : List Char} {last : Char}
    (final : (Text.strip inside).getLast? = some last) : Text.strip inside ≠ [] := by
  intro empty
  simp [empty] at final

/-- A search for escaped parentheses finds the formulas. -/
theorem AreTidy.paint_escapedParens (tidy : AreTidy phrases) (unescaped : before ≠ some '\\') :
    Piece.paint ((Text.scan Delimiters.escapedParens before (sourceOf phrases)).flatMap
      (Build.place Delimiters.toInline none none)) = Piece.paint (regionsOf phrases) := by
  induction tidy generalizing before with
  | nil => simp [sourceOf, regionsOf, Text.scan]
  | @words text rest noEscape _ _ ih =>
      have later := ih (Text.lastOr_ne unescaped noEscape)
      rw [sourceOf_cons, source, Text.scan_append_of_bare Delimiters.escapedParens_of_ne noEscape,
        List.flatMap_append, Piece.paint_append, paint_flatMap_gaps, later, regionsOf_cons,
        Piece.paint_eq_append, region, Painted.paint_outside]
  | @formula inside last rest _ onLine free final _ _ _ ih =>
      have found := Delimiters.escapedParens_formula unescaped onLine free (sourceOf rest)
      have ends : (Phrase.formula inside).source.getLast? = some ')' :=
        List.getLast?_append_of_ne_nil _ (by simp)
      have built : Delimiters.toInline before (Phrase.formula inside).source inside
          (sourceOf rest).head? = some [Region.dollars (Text.strip inside)] := by
        simp [Delimiters.toInline, strip_ne_nil final]
      rw [sourceOf_cons, Text.scan_of_some (by simp [source]) found, ends, List.flatMap_cons,
        Piece.paint_append, ih (by decide), Build.place, Option.or_none, Option.or_none, built,
        regionsOf_cons, Piece.paint_eq_append]
      rfl

/-- Inline math is read where the formulas are. -/
theorem AreTidy.paint_spans (tidy : AreTidy phrases) (unescaped : before ≠ some '\\')
    (apart : before = some '$' → (Piece.join (regionsOf phrases)).head? ≠ some '$') :
    Piece.paint ((Text.scan InlineMath.span before (Piece.join (regionsOf phrases))).flatMap
      (Build.place (fun _ taken _ _ => some [⟨.inline, taken⟩]) none none)) =
        Piece.paint (regionsOf phrases) := by
  induction tidy generalizing before with
  | nil => simp [regionsOf, Text.scan]
  | @words text rest noEscape noDollar _ ih =>
      have later := ih (Text.lastOr_ne unescaped noEscape) fun last => by
        by_cases empty : text = []
        · rw [empty] at last apart
          exact apart last
        · rw [Text.lastOr_of_ne_nil empty] at last
          exact absurd (List.mem_of_getLast? last) noDollar
      rw [regionsOf_cons, Piece.join_cons, region, Region.outside,
        Text.scan_append_of_bare InlineMath.span_of_ne noDollar, List.flatMap_append,
        Piece.paint_append, paint_flatMap_gaps, later, Piece.paint_eq_append, ← Region.outside, Painted.paint_outside]
  | @formula inside last rest noDollar onLine _ final bare closes _ ih =>
      have inText := (Text.strip_isInfix inside).subset
      have found := InlineMath.span_formula unescaped (fun dollar => apart dollar rfl)
        (fun member => noDollar (inText member)) (fun member => onLine (inText member))
        (fun _ => Text.not_isBlank_head_strip) final (Text.not_isBlank_getLast_strip final) bare
        closes
      have ends : ('$' :: Text.strip inside ++ ['$']).getLast? = some '$' := List.getLast?_concat
      have later := @ih (some '$') (by decide) fun _ dollar => (closes '$' dollar).1 rfl
      rw [regionsOf_cons, Piece.join_cons, region, Region.dollars,
        Text.scan_of_some (by simp) found, ends, List.flatMap_cons, Piece.paint_append, later,
        Build.place, Option.getD_some, Piece.paint_eq_append _ (regionsOf rest)]

theorem AreTidy.bare (tidy : AreTidy phrases) :
    ∀ stroke ∈ Piece.paint (regionsOf phrases), stroke.2 = .outside →
      stroke.1 ≠ '\\' ∧ stroke.1 ≠ '$' := by
  induction tidy with
  | nil => simp [regionsOf]
  | @words text rest noEscape noDollar _ ih =>
      rw [regionsOf_cons, Piece.paint_eq_append, region, Painted.paint_outside]
      intro stroke member free
      rcases List.mem_append.mp member with own | later
      · obtain ⟨char, inText, rfl⟩ := List.mem_map.mp own
        exact ⟨ne_of_mem_of_not_mem inText noEscape, ne_of_mem_of_not_mem inText noDollar⟩
      · exact ih stroke later free
  | formula _ _ _ _ _ _ _ ih =>
      rw [regionsOf_cons, Piece.paint_eq_append]
      intro stroke member free
      rcases List.mem_append.mp member with own | later
      · exact absurd free (Painted.frozen_paint (by simp [region, Region.dollars]) stroke own)
      · exact ih stroke later free

theorem doubled_of_append {front rest : List Char} (bare : '$' ∉ front)
    (found : ['$', '$'] <:+: front ++ rest) : ['$', '$'] <:+: rest := by
  induction front with
  | nil => exact found
  | cons char front ih =>
      rcases List.infix_cons_iff.mp found with start | later
      · obtain ⟨rfl, _⟩ := List.cons_prefix_cons.mp start
        exact absurd List.mem_cons_self bare
      · exact ih (fun member => bare (by simp [member])) later

theorem AreTidy.not_doubled (tidy : AreTidy phrases) :
    ¬ ['$', '$'] <:+: Piece.join (regionsOf phrases) := by
  induction tidy with
  | nil => simp [regionsOf]
  | words _ noDollar _ ih =>
      rw [regionsOf_cons, Piece.join_cons]
      exact fun found => ih (doubled_of_append noDollar found)
  | @formula inside last rest noDollar _ _ final _ closes _ ih =>
      obtain ⟨first, body, bodyEq⟩ := List.exists_cons_of_ne_nil (strip_ne_nil final)
      have bare : '$' ∉ Text.strip inside :=
        fun member => noDollar ((Text.strip_isInfix inside).subset member)
      have shape : Piece.join (regionsOf (.formula inside :: rest)) =
          '$' :: (Text.strip inside ++ '$' :: Piece.join (regionsOf rest)) := by
        simp [region, Region.dollars]
      rw [shape]
      intro found
      rcases List.infix_cons_iff.mp found with opened | later
      · rw [bodyEq] at opened bare
        obtain ⟨rfl, _⟩ := List.cons_prefix_cons.mp (List.cons_prefix_cons.mp opened).2
        exact bare List.mem_cons_self
      · rcases List.infix_cons_iff.mp (doubled_of_append bare later) with closed | inRest
        · obtain ⟨more, moreEq⟩ := (List.cons_prefix_cons.mp closed).2
          exact (closes '$' (by rw [← moreEq]; rfl)).1 rfl
        · exact ih inRest

theorem infix_sourceOf {stretch front : List Char} (free : '$' ∉ stretch)
    (found : stretch <:+: front ++ Piece.join (regionsOf phrases)) :
    stretch <:+: front ++ sourceOf phrases := by
  induction phrases generalizing front with
  | nil => exact found
  | cons phrase rest ih =>
      cases phrase with
      | words text =>
          rw [regionsOf_cons, Piece.join_cons, ← List.append_assoc] at found
          rw [sourceOf_cons, ← List.append_assoc]
          exact ih found
      | formula inside =>
          have walled : stretch <:+: front ++ '$' ::
              (Text.strip inside ++ '$' :: Piece.join (regionsOf rest)) := by
            simpa [region, Region.dollars] using found
          rw [sourceOf_cons, source]
          rcases infix_of_wall walled free with inFront | later
          · exact inFront.trans (List.prefix_append _ _).isInfix
          · rcases infix_of_wall later free with inBody | inRest
            · refine (inBody.trans (Text.strip_isInfix inside)).trans ?_
              exact ⟨front ++ ['\\', '('], ['\\', ')'] ++ sourceOf rest, by simp⟩
            · refine (@ih [] inRest).trans ?_
              exact ⟨front ++ (['\\', '('] ++ inside ++ ['\\', ')']), [], by simp⟩

theorem mem_sourceOf {char : Char} (other : char ≠ '$')
    (member : char ∈ Piece.join (regionsOf phrases)) : char ∈ sourceOf phrases := by
  obtain ⟨front, back, parts⟩ := List.append_of_mem member
  have found := @infix_sourceOf phrases [char] [] (by simpa using other.symm)
    ⟨front, back, by simp [parts]⟩
  exact found.subset List.mem_cons_self

theorem isOrdinary_regionsOf (ordinary : IsOrdinary (sourceOf phrases)) :
    IsOrdinary (Piece.join (regionsOf phrases)) where
  noTick member := ordinary.noTick (mem_sourceOf (by decide) member)
  noLabel member := ordinary.noLabel (mem_sourceOf (by decide) member)
  noScheme found := ordinary.noScheme (@infix_sourceOf phrases _ [] (by decide) found)

theorem AreTidy.not_mem_sourceOf (tidy : AreTidy phrases) : '$' ∉ sourceOf phrases := by
  induction tidy with
  | nil => simp [sourceOf]
  | words _ noDollar _ ih => simp [source, noDollar, ih]
  | formula noDollar _ _ _ _ _ _ ih => simp [source, noDollar, ih]

/-- What is put between dollars is read as it was put. -/
theorem AreTidy.regions_regionsOf (tidy : AreTidy phrases)
    (ordinary : IsOrdinary (sourceOf phrases)) :
    Document.regions (Piece.join (regionsOf phrases)) = Piece.fuse (regionsOf phrases) := by
  rw [Document.regions_of_isOrdinary (isOrdinary_regionsOf ordinary) tidy.not_doubled]
  apply (Piece.isFused_fuse _).eq_of_paint_eq (Piece.isFused_fuse _)
  rw [Piece.paint_fuse, Piece.paint_fuse, marking, substitution_eq]
  exact tidy.paint_spans (by simp) (by simp)

theorem AreTidy.regions_sourceOf (tidy : AreTidy phrases)
    (ordinary : IsOrdinary (sourceOf phrases)) :
    Document.regions (sourceOf phrases) = Piece.fuse [Region.outside (sourceOf phrases)] := by
  have noDollar := tidy.not_mem_sourceOf
  rw [Document.regions_of_isOrdinary ordinary (DisplayMath.not_doubled noDollar)]
  apply (Piece.isFused_fuse _).eq_of_paint_eq (Piece.isFused_fuse _)
  rw [Piece.paint_fuse, Piece.paint_fuse, Painted.paint_outside]
  apply paint_substitution_of_missed
  intro before char rest suffix
  apply InlineMath.span_of_ne
  rintro rfl
  exact noDollar (suffix.subset (by simp))

end Phrase

/-- Regions with no mark outside that a replacement starts with. -/
theorem Settled.of_bare {regions : List Region}
    (bare : ∀ region ∈ regions, region.isOutside = true →
      '\\' ∉ region.text ∧ '[' ∉ region.text ∧ '$' ∉ region.text)
    (free : ¬ ['$', '$'] <:+: Piece.join regions) : Settled regions := by
  have absent {recognize : Text.Recognizer (List Char)} {before : Option Char} {value : List Char}
      (takes : recognize.Takes) (reads : Reads recognize none regions before value)
      {mark : Char} (isMark : mark = '\\' ∨ mark = '[' ∨ mark = '$')
      (holds : ∀ {previous seen size value}, recognize previous seen = some (size, value) →
        mark ∈ seen) : False := by
    obtain ⟨region, member, isOutside, previous, seen, size, found, ends⟩ :=
      reads.exists_region takes
    have inRegion := ends.subset (holds found)
    obtain ⟨noEscape, noSquare, noDollar⟩ := bare region member isOutside
    rcases isMark with rfl | rfl | rfl
    · exact noEscape inRegion
    · exact noSquare inRegion
    · exact noDollar inRegion
  refine ⟨fun _ _ reads => ?_, fun _ _ reads => ?_, fun _ _ reads => ?_, fun _ _ reads => ?_,
    fun _ _ reads => ?_, fun front line back => BlankLines.isDropped_of_free free⟩
  · refine (absent (Delimiters.substitutes_escapedSquares (.inl rfl)).takes reads (.inl rfl)
      ?_).elim
    intro previous seen size value found
    obtain ⟨left, rfl, _⟩ := Delimiters.escapedSquares_eq_some found
    simp
  · refine (absent (Delimiters.substitutes_bracketLines (.inl rfl)).takes reads (.inr (.inl rfl))
      ?_).elim
    intro previous seen size value found
    obtain ⟨indent, newline, _, _, opening⟩ := Delimiters.infix_of_bracketLines found
    exact opening.subset (by simp)
  · refine (absent Delimiters.substitutes_escapedParens.takes reads (.inl rfl) ?_).elim
    exact fun found => (Delimiters.prefix_of_escapedParens found).subset (by simp)
  · refine (absent Delimiters.substitutes_paddedDollars.takes reads (.inr (.inr rfl)) ?_).elim
    exact fun found => (Delimiters.prefix_of_paddedDollars found).subset (by simp)
  · refine absent (Environments.substitutes_environment (.inl rfl)).takes reads (.inl rfl) ?_
    exact fun found => (Environments.infix_of_environment found).subset (by simp)

namespace Phrase

variable {phrases : List Phrase}

theorem AreTidy.settled (tidy : AreTidy phrases) (ordinary : IsOrdinary (sourceOf phrases)) :
    Settled (Piece.fuse (regionsOf phrases)) := by
  refine .of_bare (fun region member isOutside => ?_) (by simpa using tidy.not_doubled)
  have stands (char : Char) (own : char ∈ region.text) :
      (char, RegionKind.outside) ∈ Piece.paint (regionsOf phrases) := by
    rw [← Piece.paint_fuse, Piece.paint, List.mem_flatMap]
    exact ⟨region, member, List.mem_map.mpr ⟨char, own, by rw [Piece.isOutside_iff.mp isOutside]⟩⟩
  refine ⟨fun own => (tidy.bare _ (stands _ own) rfl).1 rfl, fun own => ?_,
    fun own => (tidy.bare _ (stands _ own) rfl).2 rfl⟩
  have inJoin : '[' ∈ Piece.join (regionsOf phrases) := by
    rw [← Piece.map_fst_paint]
    exact List.mem_map_of_mem (stands _ own)
  exact (isOrdinary_regionsOf ordinary).noLabel inJoin

end Phrase

section Substitution

variable {α : Type} {recognize : Text.Recognizer α} {build : Build α}

theorem paint_reviseOutside_fuse (text : List Char) :
    Piece.paint (reviseOutside (substitution recognize build)
      (Piece.fuse [Region.outside text])) =
        Piece.paint (substitution recognize build none text none) := by
  by_cases empty : text = []
  · subst empty
    simp [Piece.fuse, Piece.attach, Region.outside, reviseOutside, reviseOutsideAfter, substitution,
      Text.scan]
  · rw [Piece.fuse_eq_self (Piece.isFused_single empty)]
    exact paint_reviseOutside_single _ empty

theorem reviseOutside_fuse_of_free {text : List Char} {mark : Char}
    (holds : ∀ {before seen size value}, recognize before seen = some (size, value) → mark ∈ seen)
    (free : mark ∉ text) :
    reviseOutside (substitution recognize build) (Piece.fuse [Region.outside text]) =
      Piece.fuse [Region.outside text] := by
  apply (isFused_reviseOutside _ _).eq_of_paint_eq (Piece.isFused_fuse _)
  rw [paint_reviseOutside_fuse, Piece.paint_fuse, Painted.paint_outside]
  apply paint_substitution_of_missed
  intro before char rest suffix
  by_contra found
  obtain ⟨⟨size, value⟩, found⟩ := Option.ne_none_iff_exists'.mp found
  exact free (suffix.subset (holds found))

end Substitution

namespace Phrase

theorem AreTidy.normalize_sourceOf (tidy : AreTidy phrases)
    (ordinary : IsOrdinary (sourceOf phrases)) :
    Delimiters.normalize (Piece.fuse [Region.outside (sourceOf phrases)]) =
      Piece.fuse (regionsOf phrases) := by
  have settled := tidy.settled ordinary
  have fused : Piece.IsFused (Piece.fuse (regionsOf phrases)) := Piece.isFused_fuse _
  have parens : reviseOutside (substitution Delimiters.escapedParens Delimiters.toInline)
      (Piece.fuse [Region.outside (sourceOf phrases)]) = Piece.fuse (regionsOf phrases) := by
    apply (isFused_reviseOutside _ _).eq_of_paint_eq fused
    rw [paint_reviseOutside_fuse, substitution_eq, Piece.paint_fuse]
    exact tidy.paint_escapedParens (by simp)
  have padded : reviseOutside (substitution Delimiters.paddedDollars Delimiters.toInline)
      (Piece.fuse (regionsOf phrases)) = Piece.fuse (regionsOf phrases) :=
    (reviseOutside_eq_self_iff Delimiters.freezes_toInline fused).mpr settled.padded
  rw [Delimiters.normalize, reviseOutside_fuse_of_free _ ordinary.noLabel,
    reviseOutside_fuse_of_free _ ordinary.noLabel, parens, padded]
  · intro before seen size value found
    obtain ⟨indent, newline, _, _, opening⟩ := Delimiters.infix_of_bracketLines found
    exact opening.subset (by simp)
  · intro before seen size value found
    obtain ⟨left, rfl, _⟩ := Delimiters.escapedSquares_eq_some found
    simp

theorem AreTidy.convertedRegions_sourceOf (tidy : AreTidy phrases)
    (ordinary : IsOrdinary (sourceOf phrases)) :
    convertedRegions {} (sourceOf phrases) = Piece.fuse (regionsOf phrases) := by
  have settled := tidy.settled ordinary
  have fused : Piece.IsFused (Piece.fuse (regionsOf phrases)) := Piece.isFused_fuse _
  have stages : Stage.enabled {} = [.delimiters, .environments, .blankLines] := rfl
  rw [convertedRegions, stages, tidy.regions_sourceOf ordinary]
  simp only [List.foldl_cons, List.foldl_nil, Stage.run]
  rw [tidy.normalize_sourceOf ordinary,
    (Environments.wrap_eq_self_iff fused).mpr settled.environments, BlankLines.normalize_eq_self_iff.mpr settled.blanks]

/-- The default conversion puts every formula of tidy phrases between dollars. -/
theorem AreTidy.convert_sourceOf (tidy : AreTidy phrases)
    (ordinary : IsOrdinary (sourceOf phrases)) :
    convert {} (sourceOf phrases) = Piece.join (regionsOf phrases) := by
  rw [convert, tidy.convertedRegions_sourceOf ordinary, Piece.join_fuse]

/-- A second default conversion of tidy phrases changes nothing. -/
theorem AreTidy.convert_convert (tidy : AreTidy phrases)
    (ordinary : IsOrdinary (sourceOf phrases)) :
    convert {} (convert {} (sourceOf phrases)) = convert {} (sourceOf phrases) := by
  rw [convert_convert_iff, tidy.convert_sourceOf ordinary, tidy.regions_regionsOf ordinary]
  exact tidy.settled ordinary

end Phrase

end DollarMath
