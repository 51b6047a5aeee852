import DollarMath.Proofs.Conversion.LineStyles
import DollarMath.Proofs.Region.Treatments

/-!
Brackets on lines of their own. The opening one and what stands before the closing one keep to their
lines, but after the closing one frozen text may go on with the line, since a line ends for the
search where its region ends.
-/

namespace DollarMath

def Text.isMargin (char : Char) : Bool :=
  isIndent char || char == '\r'

def Text.lineBefore (before : List Char) : List Char :=
  before.reverse.takeWhile (· != '\n')

def Text.lineAfter (after : List Char) : List Char :=
  after.takeWhile (· != '\n')

/-- A place with nothing but margins on its line, given the texts before and after it. -/
structure StandsAlone (before after : List Char) : Prop where
  before : ∀ char ∈ Text.lineBefore before, Text.isMargin char = true
  after : ∀ char ∈ Text.lineAfter after, Text.isMargin char = true

namespace Text

theorem ne_feed_of_isMargin {char : Char} (margin : isMargin char = true) : char ≠ '\n' := by
  rintro rfl
  exact absurd margin (by decide)

theorem lineAfter_margins {margins rest : List Char}
    (margin : ∀ char ∈ margins, isMargin char = true) :
    lineAfter (margins ++ rest) = margins ++ lineAfter rest :=
  List.takeWhile_append_of_pos fun char member => by
    simpa using ne_feed_of_isMargin (margin char member)

theorem lineBefore_margins {margins rest : List Char}
    (margin : ∀ char ∈ margins, isMargin char = true) :
    lineBefore (rest ++ margins) = margins.reverse ++ lineBefore rest := by
  rw [lineBefore, List.reverse_append]
  exact lineAfter_margins fun char member => margin char (List.mem_reverse.mp member)

theorem lineBefore_of_startsLine {before : List Char} (starts : StartsLine before.getLast?) :
    lineBefore before = [] := by
  rcases starts with absent | feed
  · rw [List.getLast?_eq_none_iff.mp absent]
    rfl
  · obtain ⟨front, rfl⟩ := List.getLast?_eq_some_iff.mp feed
    simp [lineBefore]

theorem lineAfter_of_head? {after : List Char} (ends : StartsLine after.head?) :
    lineAfter after = [] := by
  rcases ends with absent | feed
  · rw [List.head?_eq_none_iff.mp absent]
    rfl
  · obtain ⟨rest, rfl⟩ := List.head?_eq_some_iff.mp feed
    simp [lineAfter]

end Text

namespace Delimiters

theorem exists_margins_of_afterLineBreak? {text rest : List Char}
    (found : afterLineBreak? text = some rest) :
    ∃ margins, text = margins ++ '\n' :: rest ∧ ∀ char ∈ margins, Text.isMargin char = true := by
  unfold afterLineBreak? at found
  split at found
  next => exact ⟨['\r'], by simpa using found, by simp [Text.isMargin]⟩
  next => exact ⟨[], by simpa using found, by simp⟩
  next => simp at found

theorem isMargin_of_isIndent {indent : List Char}
    (indented : ∀ char ∈ indent, Text.isIndent char = true) :
    ∀ char ∈ indent, Text.isMargin char = true :=
  fun char member => by simp [Text.isMargin, indented char member]

theorem exists_opening_of_afterOpeningLine? {text body : List Char}
    (found : afterOpeningLine? text = some body) :
    ∃ lead margins, text = lead ++ '[' :: margins ++ '\n' :: body ∧
      (∀ char ∈ lead, Text.isMargin char = true) ∧ ∀ char ∈ margins, Text.isMargin char = true := by
  unfold afterOpeningLine? at found
  split at found
  next rest bracket =>
    obtain ⟨lead, textEq, indented⟩ := exists_indent text
    obtain ⟨gap, restEq, spaced⟩ := exists_indent rest
    obtain ⟨margins, brokenEq, margin⟩ := exists_margins_of_afterLineBreak? found
    refine ⟨lead, gap ++ margins, ?_, isMargin_of_isIndent indented,
      List.forall_mem_append.mpr ⟨isMargin_of_isIndent spaced, margin⟩⟩
    rw [textEq, bracket, restEq, brokenEq]
    simp
  next => simp at found

theorem exists_closing_of_afterClosingLine? {text rest : List Char}
    (found : afterClosingLine? text = some rest) :
    ∃ ret margins trail, text = ret ++ '\n' :: margins ++ ']' :: trail ++ rest ∧
      (∀ char ∈ margins, Text.isMargin char = true) ∧ (∀ char ∈ trail, Text.isMargin char = true) ∧
      StartsLine rest.head? := by
  rw [afterClosingLine?_eq] at found
  obtain ⟨line, broken, closed⟩ := Option.bind_eq_some_iff.mp found
  obtain ⟨ret, textEq, _⟩ := exists_margins_of_afterLineBreak? broken
  obtain ⟨after, bracket, restEq, ends⟩ := afterClosing?_eq_some closed
  obtain ⟨margins, lineEq, indented⟩ := exists_indent line
  obtain ⟨trail, afterEq, spaced⟩ := exists_indent after
  refine ⟨ret, margins, trail, ?_, isMargin_of_isIndent indented, isMargin_of_isIndent spaced, ?_⟩
  · rw [textEq, lineEq, bracket, afterEq, ← restEq]
    simp
  · rcases ends with rfl | feed
    · exact .inl rfl
    · exact .inr feed

/-- Two brackets with a body between them, each with margins on its line as far as the pair goes. -/
structure IsPair (pair lead inside trail : List Char) : Prop where
  whole : pair = lead ++ '[' :: inside ++ ']' :: trail
  lead : ∀ char ∈ lead, Text.isMargin char = true
  opens : ∃ margins rest, inside = margins ++ '\n' :: rest ∧
    ∀ char ∈ margins, Text.isMargin char = true
  closes : ∃ rest margins, inside = rest ++ '\n' :: margins ∧
    ∀ char ∈ margins, Text.isMargin char = true
  trail : ∀ char ∈ trail, Text.isMargin char = true

theorem exists_pair_of_bracketLines {before : Option Char} {taken left body : List Char}
    (found : bracketLines before (taken ++ left) = some (taken.length, body)) :
    StartsLine left.head? ∧ ∃ lead inside trail, IsPair taken lead inside trail := by
  obtain ⟨_, after, rest, opened, split, size⟩ := bracketLines_eq_some found
  obtain ⟨lead, margins, textEq, leadMargin, margin⟩ := exists_opening_of_afterOpeningLine? opened
  obtain ⟨tail, afterEq, closed⟩ := Text.splitWhere?_eq_some split
  obtain ⟨ret, margins', trail, tailEq, margin', trailMargin, ends⟩ :=
    exists_closing_of_afterClosingLine? closed
  have whole : taken ++ left = (lead ++ '[' :: (margins ++ '\n' :: (body ++ ret) ++ '\n' :: margins') ++
      ']' :: trail) ++ rest := by
    rw [textEq, afterEq, tailEq]
    simp
  have parts := List.append_inj whole (by
    have lengths := congrArg List.length whole
    simp only [List.length_append] at lengths size ⊢
    omega)
  obtain ⟨takenEq, rfl⟩ := parts
  exact ⟨ends, lead, _, trail, takenEq, leadMargin,
    ⟨margins, _, List.append_assoc _ _ _, margin⟩, ⟨_, margins', rfl, margin'⟩, trailMargin⟩

namespace IsPair

variable {pair lead inside trail before after : List Char}

theorem standsAlone_opening (isPair : IsPair pair lead inside trail)
    (starts : StartsLine before.getLast?) : StandsAlone (before ++ lead) (inside ++ after) := by
  obtain ⟨margins, rest, insideEq, margin⟩ := isPair.opens
  constructor
  · rw [Text.lineBefore_margins isPair.lead, Text.lineBefore_of_startsLine starts, List.append_nil]
    exact fun char member => isPair.lead char (List.mem_reverse.mp member)
  · rw [insideEq, List.append_assoc, Text.lineAfter_margins margin,
      Text.lineAfter_of_head? (.inr rfl), List.append_nil]
    exact margin

theorem lineBefore_closing (isPair : IsPair pair lead inside trail) :
    ∀ char ∈ Text.lineBefore (before ++ lead ++ '[' :: inside), Text.isMargin char = true := by
  obtain ⟨rest, margins, insideEq, margin⟩ := isPair.closes
  have whole : before ++ lead ++ '[' :: inside = before ++ lead ++ '[' :: rest ++ ['\n'] ++ margins := by
    simp [insideEq]
  rw [whole, Text.lineBefore_margins margin,
    Text.lineBefore_of_startsLine (.inr List.getLast?_concat), List.append_nil]
  exact fun char member => margin char (List.mem_reverse.mp member)

theorem lineAfter_closing (isPair : IsPair pair lead inside trail) (ends : StartsLine after.head?) :
    ∀ char ∈ Text.lineAfter (trail ++ after), Text.isMargin char = true := by
  rw [Text.lineAfter_margins isPair.trail, Text.lineAfter_of_head? ends, List.append_nil]
  exact isPair.trail

end IsPair

theorem startsLine_of_toDisplayAtLine {newline taken body : List Char} {previous next : Option Char}
    {made : List Region} (built : toDisplayAtLine newline previous taken body next = some made) :
    StartsLine previous := by
  unfold toDisplayAtLine at built
  split at built
  next => simp at built
  next atLine => exact startsLine_of_any (by simpa using atLine)

theorem pair_of_treatments {newline : List Char} {regions : List Region}
    (fused : Piece.IsFused regions) {left right : List Treatment} {text : List Char}
    {made : List Region}
    (parts : treatments bracketLines (toDisplayAtLine newline) none regions =
      left ++ .replaced text made :: right) :
    StartsLine (Treatment.sourceText left).getLast? ∧
      (∃ lead inside trail, IsPair text lead inside trail) ∧
      (StartsLine (Treatment.sourceText right).head? ∨
        ∃ region rest, right = .kept region :: rest ∧ region.kind ≠ .outside) := by
  obtain ⟨above, region, below, front, previous, body, next, back, rfl, free, scanned, built, leftEq,
    rfl⟩ := exists_of_treatments fused.nonempty parts
  have takes : Text.Recognizer.Takes bracketLines :=
    (@substitutes_bracketLines ['\n'] (.inl rfl)).takes
  obtain ⟨previousEq, nextEq, found⟩ := takes.scan_split scanned
  obtain ⟨ends, isPair⟩ := exists_pair_of_bracketLines found
  refine ⟨?_, isPair, ?_⟩
  · have starts := startsLine_of_toDisplayAtLine built
    rw [previousEq, ← Text.getLast?_or, Option.or_none, Text.getLast?_or, ← Text.lastOr_append,
      ← leftEq, ← Text.getLast?_or, Option.or_none] at starts
    exact starts
  · cases back with
    | cons first back =>
        have member : first ∈ Text.scan bracketLines none region.text := by
          rw [scanned]
          simp
        obtain ⟨char, rest, textEq⟩ := List.exists_cons_of_ne_nil (takes.text_ne_nil member)
        left
        rw [List.flatMap_cons, textEq] at ends
        rw [Treatment.sourceText_append, sourceText_treat, List.flatMap_cons, textEq]
        exact ends
    | nil =>
        cases below with
        | nil => exact .inl (.inl rfl)
        | cons next below =>
            have frozen : next.kind ≠ .outside := fun isOutside => fused.kind_ne (free.trans isOutside.symm)
            exact .inr ⟨next, _, treatments_of_frozen frozen, frozen⟩

def pairTreatments (regions : List Region) : List Treatment :=
  treatments bracketLines (toDisplayAtLine (lineEnding (Piece.join regions))) none
    (afterSquares regions)

/-- Where a pair of brackets is replaced, the opening one stands alone on its line, and so does the
closing one unless frozen text directly follows the pair. -/
theorem bracketPair_standsAlone (regions : List Region) :
    Piece.paint ((pairTreatments regions).map Treatment.source) = Piece.paint (afterSquares regions) ∧
      normalize regions = reviseOutside (substitution paddedDollars toInline)
        (reviseOutside (substitution escapedParens toInline)
          (Piece.fuse ((pairTreatments regions).flatMap Treatment.result))) ∧
      ∀ left text made right, pairTreatments regions = left ++ .replaced text made :: right →
        ∃ lead inside trail, text = lead ++ '[' :: inside ++ ']' :: trail ∧
          StandsAlone (Treatment.sourceText left ++ lead)
            (inside ++ ']' :: (trail ++ Treatment.sourceText right)) ∧
          (∀ char ∈ Text.lineBefore (Treatment.sourceText left ++ lead ++ '[' :: inside),
            Text.isMargin char = true) ∧
          (StandsAlone (Treatment.sourceText left ++ lead ++ '[' :: inside)
              (trail ++ Treatment.sourceText right) ∨
            ∃ region rest, right = .kept region :: rest ∧ region.kind ≠ .outside) := by
  have fused : Piece.IsFused (afterSquares regions) := Piece.isFused_fuse _
  refine ⟨paint_source_treatments _ _, ?_, fun left text made right parts => ?_⟩
  · rw [pairTreatments, fuse_result_treatments fused.nonempty]
    rfl
  · obtain ⟨starts, ⟨lead, inside, trail, isPair⟩, ended⟩ := pair_of_treatments fused parts
    refine ⟨lead, inside, trail, isPair.whole, isPair.standsAlone_opening starts,
      isPair.lineBefore_closing, ?_⟩
    rcases ended with ends | frozen
    · exact .inl ⟨isPair.lineBefore_closing, isPair.lineAfter_closing ends⟩
    · exact .inr frozen

theorem bracketPair_standsAlone_region :
    let regions := [Region.outside "a\n [ \nx\n] ".toList]
    pairTreatments regions = [.kept (Region.outside ['a']), .kept (Region.outside ['\n'])] ++
        .replaced " [ \nx\n] ".toList
          (displayBlock ['\n'] [] ['x'] (some '\n') none) :: [] ∧
      ∃ lead inside trail, " [ \nx\n] ".toList = lead ++ '[' :: inside ++ ']' :: trail ∧
        StandsAlone ("a\n".toList ++ lead) (inside ++ ']' :: (trail ++ [])) := by
  have parts : pairTreatments [Region.outside "a\n [ \nx\n] ".toList] =
      [.kept (Region.outside ['a']), .kept (Region.outside ['\n'])] ++
        .replaced " [ \nx\n] ".toList (displayBlock ['\n'] [] ['x'] (some '\n') none) :: [] := by
    decide +kernel
  obtain ⟨lead, inside, trail, whole, alone, _⟩ := (bracketPair_standsAlone _).2.2 _ _ _ _ parts
  exact ⟨parts, lead, inside, trail, whole, alone⟩

/-- A pair is replaced although code goes on with the line of its closing bracket. -/
theorem bracketPair_followed :
    let regions := [Region.outside "[\nx\n]".toList, Region.code "\x60c\x60".toList]
    Piece.IsFused regions ∧
      pairTreatments regions = .replaced ("[\nx\n".toList ++ [']'])
          (displayBlock ['\n'] [] ['x'] none (some '\x60')) :: [.kept (Region.code "\x60c\x60".toList)] ∧
      normalize regions = displayBlock ['\n'] [] ['x'] none (some '\x60') ++
        [Region.code "\x60c\x60".toList] ∧
      ¬ StandsAlone "[\nx\n".toList "\x60c\x60".toList := by
  refine ⟨⟨by decide, by decide⟩, by decide +kernel, by decide +kernel, fun alone => ?_⟩
  exact absurd (alone.after '\x60' (by decide)) (by decide)

end Delimiters

end DollarMath
