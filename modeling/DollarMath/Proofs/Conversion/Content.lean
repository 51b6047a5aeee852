import DollarMath.Proofs.Conversion.Passes
import DollarMath.Proofs.Document.Marks

/-!
A conversion moves blanks and marks of delimiters only: what else a text holds comes through in
order, and dollars are added in pairs.
-/

namespace DollarMath

def content (marks text : List Char) : List Char :=
  text.filter fun char => !(Text.isBlank char || marks.contains char)

def delimiterMarks : List Char :=
  ['$', '\\', '(', ')', '[', ']']

def braces : List Char :=
  ['{', '}']

/-- The marks that a conversion may add or drop. Only degrees are put into braces. -/
def Options.marks (options : Options) : List Char :=
  if options.bareTokens then delimiterMarks ++ braces else delimiterMarks

@[simp] theorem content_append (marks first second : List Char) :
    content marks (first ++ second) = content marks first ++ content marks second :=
  List.filter_append ..

/-- Two texts hold the same, the second one with some more pairs of dollars. -/
structure SameContent (marks old new : List Char) : Prop where
  kept : content marks new = content marks old
  dollars : ∃ pairs, new.count '$' = old.count '$' + 2 * pairs

namespace SameContent

variable {marks first second third : List Char}

theorem refl (marks text : List Char) : SameContent marks text text :=
  ⟨rfl, 0, rfl⟩

theorem trans (left : SameContent marks first second) (right : SameContent marks second third) :
    SameContent marks first third := by
  obtain ⟨pairs, leftCount⟩ := left.dollars
  obtain ⟨more, rightCount⟩ := right.dollars
  exact ⟨right.kept.trans left.kept, pairs + more, by omega⟩

theorem append {first' second' : List Char} (left : SameContent marks first first')
    (right : SameContent marks second second') :
    SameContent marks (first ++ second) (first' ++ second') := by
  obtain ⟨pairs, leftCount⟩ := left.dollars
  obtain ⟨more, rightCount⟩ := right.dollars
  refine ⟨?_, pairs + more, ?_⟩
  · rw [content_append, content_append, left.kept, right.kept]
  · rw [List.count_append, List.count_append]
    omega

end SameContent

theorem content_of_blank {marks text : List Char}
    (blank : ∀ char ∈ text, Text.isBlank char = true) : content marks text = [] := by
  rw [content, List.filter_eq_nil_iff]
  intro char member
  simp [blank char member]

theorem content_of_marks {marks text : List Char} (dropped : text ⊆ marks) :
    content marks text = [] := by
  rw [content, List.filter_eq_nil_iff]
  intro char member
  simp [dropped member]

theorem count_of_blank {text : List Char} (blank : ∀ char ∈ text, Text.isBlank char = true) :
    text.count '$' = 0 := by
  rw [List.count_eq_zero]
  intro member
  exact absurd (blank '$' member) (by decide)

theorem SameContent.of_blank {marks old new : List Char}
    (oldBlank : ∀ char ∈ old, Text.isBlank char = true)
    (newBlank : ∀ char ∈ new, Text.isBlank char = true) : SameContent marks old new :=
  ⟨by rw [content_of_blank oldBlank, content_of_blank newBlank], 0,
    by rw [count_of_blank oldBlank, count_of_blank newBlank]⟩

theorem SameContent.strip (marks text : List Char) : SameContent marks text (Text.strip text) := by
  obtain ⟨left, right, whole, leftBlank, rightBlank⟩ := Text.exists_strip text
  have same : SameContent marks (left ++ Text.strip text ++ right) ([] ++ Text.strip text ++ []) :=
    .append (.append (.of_blank leftBlank (by simp)) (.refl _ _)) (.of_blank rightBlank (by simp))
  rw [← whole] at same
  simpa using same

theorem SameContent.stripRight (marks text : List Char) :
    SameContent marks text (Text.stripRight text) := by
  obtain ⟨right, whole, blank⟩ := Text.exists_dropRightWhile Text.isBlank text
  have same : SameContent marks (Text.stripRight text ++ right) (Text.stripRight text ++ []) :=
    .append (.refl _ _) (.of_blank blank (by simp))
  rw [Text.stripRight, ← whole] at same
  simpa [Text.stripRight] using same

theorem SameContent.exchange {marks before old new after before' after' : List Char}
    (same : SameContent marks old new) (dropped : content marks (before ++ after) = [])
    (put : content marks (before' ++ after') = []) {pairs : Nat}
    (dollars : (before' ++ after').count '$' = (before ++ after).count '$' + 2 * pairs) :
    SameContent marks (before ++ old ++ after) (before' ++ new ++ after') := by
  obtain ⟨more, count⟩ := same.dollars
  rw [content_append, List.append_eq_nil_iff] at dropped put
  refine ⟨?_, pairs + more, ?_⟩
  · simp only [content_append, dropped, put, same.kept]
  · simp only [List.count_append] at dollars ⊢
    omega

theorem isBlank_of_isLineEnd {newline : List Char} (lineEnd : IsLineEnd newline) :
    ∀ char ∈ newline, Text.isBlank char = true := by
  rcases lineEnd with rfl | rfl
  · exact List.all_eq_true.mp rfl
  · exact List.all_eq_true.mp rfl

theorem join_displayBlock (newline indent body : List Char) (previous next : Option Char) :
    ∃ above below, (above = [] ∨ above = newline) ∧ (below = [] ∨ below = newline) ∧
      Piece.join (displayBlock newline indent body previous next) =
        (above ++ indent ++ ['$', '$'] ++ newline ++ indent) ++ body ++
          (newline ++ indent ++ ['$', '$'] ++ below) := by
  refine ⟨if previous.any (· != '\n') then newline else [],
    if next.any fun char => !Text.isReturn char then newline else [], ?_, ?_, ?_⟩
  · split <;> simp
  · split <;> simp
  · unfold displayBlock
    dsimp only
    split <;> split <;> simp [Region.display, Region.outside]

theorem SameContent.displayBlock {marks newline indent before old body after : List Char}
    {previous next : Option Char} (lineEnd : IsLineEnd newline) (dollar : '$' ∈ marks)
    (indented : ∀ char ∈ indent, Text.isBlank char = true)
    (dropped : content marks (before ++ after) = []) (free : (before ++ after).count '$' = 0)
    (same : SameContent marks old body) :
    SameContent marks (before ++ old ++ after)
      (Piece.join (displayBlock newline indent body previous next)) := by
  obtain ⟨above, below, aboveEq, belowEq, whole⟩ :=
    join_displayBlock newline indent body previous next
  have newlineBlank := isBlank_of_isLineEnd lineEnd
  have aboveBlank : ∀ char ∈ above, Text.isBlank char = true := by
    rcases aboveEq with rfl | rfl
    · simp
    · exact newlineBlank
  have belowBlank : ∀ char ∈ below, Text.isBlank char = true := by
    rcases belowEq with rfl | rfl
    · simp
    · exact newlineBlank
  have four : (above ++ indent ++ ['$', '$'] ++ newline ++ indent ++
      (newline ++ indent ++ ['$', '$'] ++ below)).count '$' =
        (before ++ after).count '$' + 2 * 2 := by
    rw [free]
    simp [List.count_append, count_of_blank aboveBlank, count_of_blank belowBlank,
      count_of_blank newlineBlank, count_of_blank indented]
  rw [whole]
  refine same.exchange dropped ?_ four
  have dollars : content marks ['$', '$'] = [] := content_of_marks (by simp [dollar])
  simp only [content_append, content_of_blank aboveBlank, content_of_blank belowBlank,
    content_of_blank newlineBlank, content_of_blank indented, dollars, List.append_nil]

theorem SameContent.dollars_between {marks before old new after : List Char} (pairs : Nat)
    (dollar : '$' ∈ marks) (dropped : content marks (before ++ after) = [])
    (few : 2 = (before ++ after).count '$' + 2 * pairs) (same : SameContent marks old new) :
    SameContent marks (before ++ old ++ after) (Piece.join [Region.dollars new]) := by
  have dollars : content marks ['$', '$'] = [] := content_of_marks (by simp [dollar])
  have whole : SameContent marks (before ++ old ++ after) (['$'] ++ new ++ ['$']) :=
    same.exchange dropped dollars few
  simpa [Region.dollars] using whole

theorem around_bracketLines {marks left lead trail right : List Char}
    (delimiters : delimiterMarks ⊆ marks)
    (indented : ∀ char ∈ left ++ right, Text.isIndent char = true)
    (blank : ∀ char ∈ lead ++ trail, Text.isBlank char = true) :
    content marks ((left ++ '[' :: lead) ++ (trail ++ ']' :: right)) = [] ∧
      ((left ++ '[' :: lead) ++ (trail ++ ']' :: right)).count '$' = 0 := by
  obtain ⟨leftBlank, rightBlank⟩ := List.forall_mem_append.mp
    fun char member => Text.isBlank_of_isIndent (indented char member)
  obtain ⟨leadBlank, trailBlank⟩ := List.forall_mem_append.mp blank
  have bracket (char : Char) (only : [char] ⊆ delimiterMarks) : content marks [char] = [] :=
    content_of_marks fun _ member => delimiters (only member)
  have around : (left ++ '[' :: lead) ++ (trail ++ ']' :: right) =
      left ++ (['['] ++ (lead ++ (trail ++ ([']'] ++ right)))) := by simp
  rw [around]
  constructor
  · simp only [content_append, content_of_blank leftBlank, content_of_blank rightBlank,
      content_of_blank leadBlank, content_of_blank trailBlank, bracket '[' (by decide),
      bracket ']' (by decide), List.append_nil]
  · simp only [List.count_append, count_of_blank leftBlank, count_of_blank rightBlank,
      count_of_blank leadBlank, count_of_blank trailBlank]
    decide

theorem SameContent.degreeSign {marks sign : List Char} (braced : braces ⊆ marks)
    (signs : sign = ['^', '\\', 'c', 'i', 'r', 'c'] ∨ sign = DollarMath.degreeSign) :
    SameContent marks sign DollarMath.degreeSign := by
  have brace (char : Char) (only : [char] ⊆ braces) : content marks [char] = [] :=
    content_of_marks fun _ member => braced (only member)
  have opened := brace '{' (by decide)
  have closed := brace '}' (by decide)
  rcases signs with rfl | rfl
  · refine ⟨?_, 0, rfl⟩
    calc content marks DollarMath.degreeSign
        = content marks (['^'] ++ (['{'] ++ (['\\', 'c', 'i', 'r', 'c'] ++ ['}']))) := rfl
      _ = content marks (['^'] ++ ['\\', 'c', 'i', 'r', 'c']) := by
          simp only [content_append, opened, closed, List.nil_append, List.append_nil]
  · exact .refl _ _

namespace Stage.Replaces

theorem sameContent {stage : Stage} {marks text : List Char} {regions : List Region}
    {before after : Option Char} (replaced : stage.Replaces before text regions after)
    (delimiters : delimiterMarks ⊆ marks)
    (braced : stage = .bareTokens → braces ⊆ marks) :
    SameContent marks text (Piece.join regions) := by
  have dollar : '$' ∈ marks := delimiters (by decide)
  have marked (text : List Char) (only : text ⊆ delimiterMarks) :
      content marks text = [] :=
    content_of_marks fun _ member => delimiters (only member)
  cases replaced with
  | squares lineEnd _ =>
      exact .displayBlock lineEnd dollar (by simp) (marked _ (by decide)) (by decide) (.strip _ _)
  | @squareLines newline left lead inside trail right _ _ lineEnd _ _ indented blank =>
      obtain ⟨dropped, free⟩ := around_bracketLines delimiters indented blank
      have whole : SameContent marks ((left ++ '[' :: lead) ++ inside ++ (trail ++ ']' :: right))
          (Piece.join (displayBlock newline [] (Text.strip inside) before after)) :=
        .displayBlock lineEnd dollar (by simp) dropped free (.strip _ _)
      simpa using whole
  | parens _ => exact .dollars_between 1 dollar (marked _ (by decide)) rfl (.strip _ _)
  | @padded inside _ _ _ _ =>
      have whole : SameContent marks (['$'] ++ inside ++ ['$'])
          (Piece.join [Region.dollars (Text.strip inside)]) :=
        .dollars_between 0 dollar (marked _ (by decide)) rfl (.strip _ _)
      exact whole
  | @environment newline indent body _ _ lineEnd _ indented =>
      have blank : ∀ char ∈ indent, Text.isBlank char = true :=
        fun char member => Text.isBlank_of_isIndent (indented char member)
      have whole : SameContent marks (indent ++ body ++ [])
          (Piece.join (displayBlock newline indent body before after)) :=
        .displayBlock lineEnd dollar blank (by simpa using content_of_blank blank)
          (by simpa using count_of_blank blank) (.refl _ _)
      simpa using whole
  | @hangingEnvironment newline indent body _ _ lineEnd _ _ _ =>
      have whole : SameContent marks ([] ++ body ++ [])
          (Piece.join (displayBlock newline [] body indent.getLast? after)) :=
        .displayBlock lineEnd dollar (by simp) (by simp [content]) (by simp) (.refl _ _)
      rw [List.nil_append, List.append_nil] at whole
      rw [Piece.join_cons]
      exact .append (.refl _ _) whole
  | @formula newline text _ _ lineEnd _ _ _ _ =>
      have newlineBlank := isBlank_of_isLineEnd lineEnd
      have around : content marks (['$', '$'] ++ newline ++ (newline ++ ['$', '$'])) = [] := by
        simp only [content_append, content_of_blank newlineBlank, marked ['$', '$'] (by decide),
          List.append_nil]
      have four : (['$', '$'] ++ newline ++ (newline ++ ['$', '$'])).count '$' =
          ([] ++ [] : List Char).count '$' + 2 * 2 := by
        simp [List.count_append, count_of_blank newlineBlank]
      have whole := (SameContent.stripRight marks text).exchange (by simp [content]) around four
      simpa [Region.display] using whole
  | @squareSpan inside _ _ _ =>
      have whole : SameContent marks (['['] ++ inside ++ [']'])
          (Piece.join [Region.dollars (Text.strip inside)]) :=
        .dollars_between 1 dollar (marked _ (by decide)) rfl (.strip _ _)
      exact whole
  | @parenSpan inside _ _ _ =>
      have whole : SameContent marks (['('] ++ inside ++ [')'])
          (Piece.join [Region.dollars (Text.strip inside)]) :=
        .dollars_between 1 dollar (marked _ (by decide)) rfl (.strip _ _)
      exact whole
  | @degree digit others sign _ _ _ signs =>
      have signSame := SameContent.degreeSign (braced rfl) signs
      have whole : SameContent marks ([] ++ (digit :: others ++ sign) ++ [])
          (Piece.join [Region.dollars (digit :: others ++ degreeSign)]) :=
        .dollars_between 1 dollar (by simp [content]) rfl (.append (.refl _ _) signSame)
      simpa using whole
  | token _ =>
      have whole : SameContent marks ([] ++ text ++ []) (Piece.join [Region.dollars text]) :=
        .dollars_between 1 dollar (by simp [content]) rfl (.refl _ _)
      simpa using whole
  | blankLine blank _ _ => exact .of_blank (by simpa [Text.allBlank] using blank) (by simp)

end Stage.Replaces

theorem Revised.sameContent {stage : Stage} {marks : List Char} {before after : Option Char}
    {old new : Painted} (revised : Revised stage.Replaces after before old new)
    (delimiters : delimiterMarks ⊆ marks)
    (braced : stage = .bareTokens → braces ⊆ marks) :
    SameContent marks old.text new.text := by
  induction revised with
  | nil => exact .refl _ _
  | @keep _ char _ old new _ ih =>
      have kept : SameContent marks ([char] ++ old.text) ([char] ++ new.text) :=
        .append (.refl _ _) ih
      exact kept
  | replace _ replaced _ ih =>
      rw [Painted.text_append, Painted.text_append, Painted.text_outside, Painted.text_paint]
      exact .append (replaced.sameContent delimiters braced) ih

theorem sameContent_convert (options : Options) {marks : List Char}
    (delimiters : delimiterMarks ⊆ marks)
    (braced : options.bareTokens = true → braces ⊆ marks) (text : List Char) :
    SameContent marks text (convert options text) := by
  have kept : SameContent marks text
      (Painted.text (Piece.paint (convertedRegions options text))) := by
    refine preserved_convertedRegions
      (motive := fun painted => SameContent marks text painted.text) ?_ ?_
    · intro stage enabled old new revised same
      refine same.trans (revised.sameContent delimiters ?_)
      rintro rfl
      exact braced enabled
    · rw [Painted.text_paint, Document.join_regions]
      exact .refl _ _
  rwa [Painted.text_paint] at kept

/-- Nothing but blanks and marks is lost, added or moved by a conversion. Braces come through too
unless bare tokens are wrapped, and dollars are added in pairs. -/
theorem content_convert (options : Options) (text : List Char) :
    content (delimiterMarks ++ braces) (convert options text) =
        content (delimiterMarks ++ braces) text ∧
      content options.marks (convert options text) = content options.marks text ∧
      ∃ pairs, (convert options text).count '$' = text.count '$' + 2 * pairs := by
  have all : SameContent (delimiterMarks ++ braces) text (convert options text) :=
    sameContent_convert options (by decide) (fun _ => by decide) text
  have own : SameContent options.marks text (convert options text) := by
    unfold Options.marks
    cases bare : options.bareTokens with
    | true => exact all
    | false => exact sameContent_convert options (by decide) (by simp [bare]) text
  exact ⟨all.kept, own.kept, all.dollars⟩

end DollarMath
