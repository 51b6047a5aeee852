import DollarMath.Conversion.Stage
import DollarMath.Proofs.Region.Passes
import DollarMath.Proofs.Text.Groups
import DollarMath.Proofs.Text.Lines

/-!
What each stage may put in the place of a text outside, and that the finds of its recognisers are
replaced so.
-/

namespace DollarMath

namespace Text

theorem toNat_of_isAlphanum {char : Char} (alphanumeric : char.isAlphanum = true) :
    48 ≤ char.toNat ∧ char.toNat ≤ 122 := by
  have ranges : (decide (65 ≤ char.val ∧ char.val ≤ 90) ||
      (decide (97 ≤ char.val) && decide (char.val ≤ 122)) ||
      (decide (48 ≤ char.val) && decide (char.val ≤ 57))) = true := alphanumeric
  simp only [Bool.or_eq_true, Bool.and_eq_true, decide_eq_true_eq, UInt32.le_iff_toNat_le,
    UInt32.reduceToNat] at ranges
  simp only [Char.toNat]
  omega

theorem not_isBlank_of_isAlphanum {char : Char} (alphanumeric : char.isAlphanum = true) :
    isBlank char = false := by
  have bounds := toNat_of_isAlphanum alphanumeric
  simp only [isBlank, isBlankCode]
  generalize char.toNat = code at bounds
  simp only [Bool.or_eq_false_iff, Bool.and_eq_false_iff, decide_eq_false_iff_not,
    beq_eq_false_iff_ne]
  omega

theorem not_isBlank_of_isDecimal {char : Char} (decimal : isDecimal char = true) :
    isBlank char = false := by
  unfold isDecimal at decimal
  split at decimal
  next =>
    exact not_isBlank_of_isAlphanum (by simp [Char.isAlphanum, decimal])
  next =>
    -- The blanks beyond ASCII lie between ranges of digits.
    have apart : ∀ range ∈ decimalRanges, range.2 < 128 ∨ (160 < range.1 ∧ range.2 < 5760) ∨
        (5760 < range.1 ∧ range.2 < 8192) ∨ 12288 < range.1 := by decide
    obtain ⟨range, member, lower, upper⟩ := (inRanges_iff _ _).mp decimal
    have places := apart range member
    simp only [isBlank, isBlankCode, Bool.or_eq_false_iff, Bool.and_eq_false_iff,
      decide_eq_false_iff_not, beq_eq_false_iff_ne]
    omega

end Text

def IsLineEnd (newline : List Char) : Prop :=
  newline = ['\n'] ∨ newline = ['\r', '\n']

theorem isLineEnd_lineEnding (text : List Char) : IsLineEnd (lineEnding text) := by
  unfold lineEnding IsLineEnd
  dsimp only
  split
  · exact .inr rfl
  · exact .inl rfl

theorem lineEnding_of_free {text : List Char} (free : '\n' ∉ text) : lineEnding text = ['\n'] := by
  simp [lineEnding, free]

theorem lineEnding_of_split {line : List Char} (free : '\n' ∉ line) (rest : List Char) :
    lineEnding (line ++ '\n' :: rest) =
      if line.getLast? = some '\r' then ['\r', '\n'] else ['\n'] := by
  have first : (line ++ '\n' :: rest).takeWhile (· != '\n') = line := by
    rw [List.takeWhile_append_of_pos, List.takeWhile_cons_of_neg (by decide), List.append_nil]
    intro char member
    rw [bne_iff_ne]
    rintro rfl
    exact free member
  unfold lineEnding
  rw [first]
  simp

def StartsLine (before : Option Char) : Prop :=
  before = none ∨ before = some '\n'

theorem startsLine_of_any {before : Option Char} (same : before.any (· != '\n') = false) :
    StartsLine before := by
  cases before with
  | none => exact .inl rfl
  | some char => exact .inr (by simpa using same)

structure IsSolid (text : List Char) : Prop where
  first : ∃ char, text.head? = some char ∧ Text.isReturn char = false
  last : ∃ char, text.getLast? = some char ∧ Text.isBlank char = false

theorem IsSolid.ne_nil {text : List Char} (solid : IsSolid text) : text ≠ [] := by
  rintro rfl
  obtain ⟨char, isFirst, _⟩ := solid.first
  simp at isFirst

structure IsCommand (text : List Char) : Prop where
  first : text.head? = some '\\'
  last : text.getLast? = some '}'

theorem IsCommand.isSolid {text : List Char} (command : IsCommand text) : IsSolid text :=
  ⟨⟨'\\', command.first, by decide⟩, ⟨'}', command.last, by decide⟩⟩

theorem isCommand_between (inside : List Char) : IsCommand ('\\' :: inside ++ ['}']) :=
  ⟨rfl, List.getLast?_concat⟩

/-- What is wrapped as it stands: a root or a fraction, or a letter with an index or exponent. -/
inductive IsToken : List Char → Prop
  | command {text} : IsCommand text → IsToken text
  | script {letter mark inside last} : letter.isAlpha = true → mark = '_' ∨ mark = '^' →
      last.isAlphanum = true ∨ last = '}' → IsToken (letter :: mark :: inside ++ [last])

theorem IsToken.isSolid {text : List Char} (token : IsToken text) : IsSolid text := by
  cases token with
  | command command => exact command.isSolid
  | @script letter mark inside last alphabetic _ ends =>
      refine ⟨⟨letter, rfl, ?_⟩, ⟨last, List.getLast?_concat, ?_⟩⟩
      · have solid : Text.isBlank letter = false :=
          Text.not_isBlank_of_isAlphanum (by simp [Char.isAlphanum, alphabetic])
        exact Text.not_isReturn_of_not_isLineBreak (Text.not_isLineBreak_of_not_isBlank solid)
      · rcases ends with alphanumeric | rfl
        · exact Text.not_isBlank_of_isAlphanum alphanumeric
        · decide

def degreeSign : List Char :=
  ['^', '{', '\\', 'c', 'i', 'r', 'c', '}']

/-- The regions that a stage may put in the place of a text outside, given the characters around
it. -/
inductive Stage.Replaces : Stage → Replacement
  | squares {newline inside before after} : IsLineEnd newline → Text.strip inside ≠ [] →
      Replaces .delimiters before (['\\', '['] ++ inside ++ ['\\', ']'])
        (displayBlock newline [] (Text.strip inside) before after) after
  | squareLines {newline left lead inside trail right before after} : IsLineEnd newline →
      Text.strip inside ≠ [] → StartsLine before →
      (∀ char ∈ left ++ right, Text.isIndent char = true) →
      (∀ char ∈ lead ++ trail, Text.isBlank char = true) → '\n' ∈ lead → '\n' ∈ trail →
      Replaces .delimiters before (left ++ '[' :: lead ++ inside ++ trail ++ ']' :: right)
        (displayBlock newline [] (Text.strip inside) before after) after
  | parens {inside before after} : Text.strip inside ≠ [] → '\n' ∉ inside →
      Replaces .delimiters before (['\\', '('] ++ inside ++ ['\\', ')'])
        [Region.dollars (Text.strip inside)] after
  | padded {inside before after} : Text.strip inside ≠ [] → inside.head? = some ' ' →
      '\n' ∉ inside →
      Replaces .delimiters before ('$' :: inside ++ ['$'])
        [Region.dollars (Text.strip inside)] after
  | environment {newline indent body before after} : IsLineEnd newline → IsCommand body →
      (∀ char ∈ indent, Text.isIndent char = true) →
      Replaces .environments before (indent ++ body) (displayBlock newline indent body before after)
        after
  | hangingEnvironment {newline indent body before after} : IsLineEnd newline → IsCommand body →
      indent ≠ [] → (∀ char ∈ indent, Text.isIndent char = true) →
      Replaces .environments before (indent ++ body)
        (Region.outside indent :: displayBlock newline [] body indent.getLast? after) after
  | formula {newline content before after} : IsLineEnd newline → Text.strip content ≠ [] →
      content.getLast?.all (fun char => !Text.isReturn char) = true → StartsLine before →
      after.all Text.isReturn = true →
      Replaces .formulaLines before content [Region.display
        (['$', '$'] ++ newline ++ Text.stripRight content ++ newline ++ ['$', '$'])] after
  | squareSpan {inside before after} : Text.strip inside ≠ [] → '\n' ∉ inside →
      Text.Encloses '[' ']' inside → after ≠ some '(' →
      Replaces .squares before ('[' :: inside ++ [']']) [Region.dollars (Text.strip inside)] after
  | parenSpan {inside before after} : Text.strip inside ≠ [] → '\n' ∉ inside →
      Text.Encloses '(' ')' inside → before ≠ some ']' →
      Replaces .parens before ('(' :: inside ++ [')']) [Region.dollars (Text.strip inside)] after
  | degree {digit others sign before after} : Text.isDecimal digit = true →
      sign = ['^', '\\', 'c', 'i', 'r', 'c'] ∨ sign = degreeSign →
      (∀ char ∈ others, Text.isDecimal char = true ∨ char = '.') →
      Replaces .bareTokens before (digit :: others ++ sign)
        [Region.dollars (digit :: others ++ degreeSign)] after
  | token {text before after} : IsToken text →
      Replaces .bareTokens before text [Region.dollars text] after
  | blankLine {text before after} : Text.allBlank text = true → StartsLine before →
      text.getLast? = some '\n' ∨ after = none →
      Replaces .blankLines before text [] after

namespace Delimiters

theorem escapedSquares_eq_some {previous : Option Char} {text inside : List Char} {size : Nat}
    (found : escapedSquares previous text = some (size, inside)) :
    ∃ left, text = ['\\', '['] ++ inside ++ ['\\', ']'] ++ left ∧ size = inside.length + 4 := by
  unfold escapedSquares at found
  split at found
  next rest =>
    split at found
    next => simp at found
    next =>
      obtain ⟨⟨inside, left⟩, split, same⟩ := Option.map_eq_some_iff.mp found
      simp only [Prod.mk.injEq] at same
      obtain ⟨rfl, rfl⟩ := same
      exact ⟨left, by simp [Text.splitAtFirst?_eq_some split], rfl⟩
  next => simp at found

theorem substitutes_escapedSquares {newline : List Char} (lineEnd : IsLineEnd newline) :
    Substitutes escapedSquares (toDisplay newline) (Stage.Replaces .delimiters) := by
  intro previous text size value found
  obtain ⟨left, whole, sizeEq⟩ := escapedSquares_eq_some found
  refine ⟨['\\', '['] ++ value ++ ['\\', ']'], left, whole, by simp [sizeEq], by simp, ?_⟩
  intro before after regions _ built
  unfold toDisplay at built
  dsimp only at built
  split at built
  next => simp at built
  next nonempty =>
    simp only [Option.some.injEq] at built
    subst built
    exact .squares lineEnd (by simpa using nonempty)

theorem afterLineBreak?_eq_some {text rest : List Char} (found : afterLineBreak? text = some rest) :
    ∃ newline, text = newline ++ rest ∧ (∀ char ∈ newline, Text.isBlank char = true) ∧
      '\n' ∈ newline := by
  unfold afterLineBreak? at found
  split at found
  · simp only [Option.some.injEq] at found
    subst found
    exact ⟨['\r', '\n'], rfl, List.all_eq_true.mp rfl, by simp⟩
  · simp only [Option.some.injEq] at found
    subst found
    exact ⟨['\n'], rfl, List.all_eq_true.mp rfl, by simp⟩
  · simp at found

theorem exists_indent (text : List Char) :
    ∃ indent, text = indent ++ text.dropWhile Text.isIndent ∧
      ∀ char ∈ indent, Text.isIndent char = true :=
  ⟨text.takeWhile Text.isIndent, List.takeWhile_append_dropWhile.symm,
    fun _ member => List.mem_takeWhile_imp member⟩

theorem afterClosingLine?_eq_some {text rest : List Char}
    (found : afterClosingLine? text = some rest) :
    ∃ trail right, text = trail ++ ']' :: right ++ rest ∧
      (∀ char ∈ trail, Text.isBlank char = true) ∧ (∀ char ∈ right, Text.isIndent char = true) ∧
      '\n' ∈ trail := by
  unfold afterClosingLine? at found
  split at found
  next tail opened =>
    obtain ⟨body, broken, bodyEq⟩ := Option.map_eq_some_iff.mp opened
    obtain ⟨newline, textEq, newlineBlank, feed⟩ := afterLineBreak?_eq_some broken
    obtain ⟨indent, indentEq, indentBlank⟩ := exists_indent body
    obtain ⟨right, rightEq, rightIndent⟩ := exists_indent tail
    rw [bodyEq] at indentEq
    dsimp only at found
    split at found
    next =>
      simp only [Option.some.injEq] at found
      rw [found] at rightEq
      refine ⟨newline ++ indent, right, ?_, ?_, rightIndent, by simp [feed]⟩
      · rw [textEq, indentEq, rightEq]
        simp
      · intro char member
        rcases List.mem_append.mp member with first | second
        · exact newlineBlank char first
        · exact Text.isBlank_of_isIndent (indentBlank char second)
    next => simp at found
  next => simp at found

theorem substitutes_bracketLines {newline : List Char} (lineEnd : IsLineEnd newline) :
    Substitutes bracketLines (toDisplayAtLine newline) (Stage.Replaces .delimiters) := by
  intro previous text size value found
  unfold bracketLines at found
  split at found
  next => simp at found
  next =>
    split at found
    next rest opened =>
      split at found
      next body broken =>
        obtain ⟨⟨inside, left⟩, split, same⟩ := Option.map_eq_some_iff.mp found
        simp only [Prod.mk.injEq] at same
        obtain ⟨rfl, rfl⟩ := same
        obtain ⟨indent, textEq, indentBlank⟩ := exists_indent text
        obtain ⟨lead, restEq, leadBlank⟩ := exists_indent rest
        obtain ⟨lineBreak, afterEq, breakBlank, broken⟩ := afterLineBreak?_eq_some broken
        obtain ⟨tail, bodyEq, closed⟩ := Text.splitWhere?_eq_some split
        obtain ⟨trail, right, tailEq, trailBlank, rightIndent, ended⟩ :=
          afterClosingLine?_eq_some closed
        rw [opened, restEq, afterEq, bodyEq, tailEq] at textEq
        refine ⟨indent ++ '[' :: (lead ++ lineBreak) ++ inside ++ trail ++ ']' :: right, left,
          by simp [textEq], by rw [textEq]; simp; omega, by simp, ?_⟩
        intro before after regions _ built
        unfold toDisplayAtLine toDisplay at built
        split at built
        next => simp at built
        next atLine =>
          dsimp only at built
          split at built
          next => simp at built
          next nonempty =>
            simp only [Option.some.injEq] at built
            subst built
            refine .squareLines lineEnd (by simpa using nonempty) ?_ ?_ ?_ (by simp [broken]) ended
            · exact startsLine_of_any (by simpa using atLine)
            · intro char member
              rcases List.mem_append.mp member with first | second
              · exact indentBlank char first
              · exact rightIndent char second
            · intro char member
              simp only [List.mem_append] at member
              rcases member with (first | second) | third
              · exact Text.isBlank_of_isIndent (leadBlank char first)
              · exact breakBlank char second
              · exact trailBlank char third
      next => simp at found
    next => simp at found

theorem toInline_eq_some {before after : Option Char} {taken inside : List Char}
    {regions : List Region} (built : toInline before taken inside after = some regions) :
    Text.strip inside ≠ [] ∧ regions = [Region.dollars (Text.strip inside)] := by
  unfold toInline at built
  dsimp only at built
  split at built
  next => simp at built
  next nonempty =>
    simp only [Option.some.injEq] at built
    exact ⟨by simpa using nonempty, built.symm⟩

theorem substitutes_escapedParens :
    Substitutes escapedParens toInline (Stage.Replaces .delimiters) := by
  intro previous text size value found
  unfold escapedParens at found
  split at found
  next rest =>
    split at found
    next => simp at found
    next =>
      split at found
      next inside left split =>
        split at found
        next => simp at found
        next onLine =>
          simp only [Option.some.injEq, Prod.mk.injEq] at found
          obtain ⟨rfl, rfl⟩ := found
          have whole := Text.splitAtFirst?_eq_some split
          refine ⟨['\\', '('] ++ inside ++ ['\\', ')'], left, by simp [whole], by simp, by simp, ?_⟩
          intro before after regions _ built
          obtain ⟨nonempty, rfl⟩ := toInline_eq_some built
          exact .parens nonempty (by simpa using onLine)
      next => simp at found
  next => simp at found

theorem substitutes_paddedDollars :
    Substitutes paddedDollars toInline (Stage.Replaces .delimiters) := by
  intro previous text size value found
  unfold paddedDollars at found
  split at found
  next rest =>
    split at found
    next => simp at found
    next =>
      dsimp only at found
      split at found
      next after opened =>
        split at found
        next tight =>
          simp only [Option.some.injEq, Prod.mk.injEq] at found
          obtain ⟨rfl, rfl⟩ := found
          simp only [Bool.and_eq_true, beq_iff_eq] at tight
          have whole := List.takeWhile_append_dropWhile
            (p := fun char => char != '$' && char != '\n') (l := rest)
          have onLine : '\n' ∉ rest.takeWhile fun char => char != '$' && char != '\n' :=
            fun feed => absurd (List.mem_takeWhile_imp feed) (by decide)
          generalize rest.takeWhile _ = inside at opened tight whole onLine ⊢
          have restEq : rest = inside ++ '$' :: after := by
            rw [← whole] at opened ⊢
            rw [List.drop_left'] at opened
            · rw [opened]
            · rfl
          refine ⟨'$' :: inside ++ ['$'], after, by simp [restEq], by simp, by simp, ?_⟩
          intro before after regions _ built
          obtain ⟨nonempty, rfl⟩ := toInline_eq_some built
          exact .padded nonempty tight.1.1.1 onLine
        next => simp at found
      next => simp at found
  next => simp at found

end Delimiters

namespace Environments

theorem afterEnvironment?_eq_some {text rest : List Char}
    (found : afterEnvironment? text = some rest) : ∃ body, text = body ++ rest ∧ IsCommand body := by
  obtain ⟨⟨name, inside⟩, begun, closed⟩ := Option.bind_eq_some_iff.mp found
  obtain ⟨opened, starts, named⟩ := Option.bind_eq_some_iff.mp begun
  obtain ⟨other, _, after⟩ := List.exists_of_findSome?_eq_some named
  obtain ⟨left, word, same⟩ := Option.map_eq_some_iff.mp after
  simp only [Prod.mk.injEq] at same
  obtain ⟨rfl, rfl⟩ := same
  obtain ⟨⟨front, back⟩, split, rfl⟩ := Option.map_eq_some_iff.mp closed
  have textEq := Text.afterWord?_eq_some starts
  have openedEq := Text.afterWord?_eq_some word
  have insideEq := Text.splitAtFirst?_eq_some split
  dsimp only at insideEq
  refine ⟨'\\' :: (['b', 'e', 'g', 'i', 'n', '{'] ++ other ++ ['}'] ++ front ++
    ['\\', 'e', 'n', 'd', '{'] ++ other) ++ ['}'], ?_, isCommand_between _⟩
  rw [textEq, openedEq, insideEq, endOf]
  simp

theorem substitutes_environment {newline : List Char} (lineEnd : IsLineEnd newline) :
    Substitutes environment (toDisplay newline) (Stage.Replaces .environments) := by
  intro previous text size indent found
  unfold environment at found
  dsimp only at found
  obtain ⟨rest, after, same⟩ := Option.map_eq_some_iff.mp found
  simp only [Prod.mk.injEq] at same
  obtain ⟨rfl, indentEq⟩ := same
  rw [indentEq] at after
  obtain ⟨body, restEq, command⟩ := afterEnvironment?_eq_some after
  have indents : text = indent ++ text.drop indent.length ∧
      ∀ char ∈ indent, Text.isIndent char = true := by
    subst indentEq
    split
    next => simp
    next =>
      refine ⟨?_, fun _ member => List.mem_takeWhile_imp member⟩
      have whole := List.takeWhile_append_dropWhile (p := Text.isIndent) (l := text)
      generalize text.takeWhile Text.isIndent = front at whole
      rw [← whole, List.drop_left]
  have textEq : text = indent ++ body ++ rest := by
    rw [List.append_assoc, ← restEq]
    exact indents.1
  refine ⟨indent ++ body, rest, textEq, ?_, by simp [command.isSolid.ne_nil], ?_⟩
  · rw [textEq]
    simp only [List.length_append]
    omega
  · intro before after regions _ built
    unfold toDisplay at built
    simp only [List.drop_left] at built
    split at built
    next hanging =>
      simp only [Option.some.injEq] at built
      subst built
      simp only [Bool.and_eq_true, Bool.not_eq_true', List.isEmpty_eq_false_iff] at hanging
      exact .hangingEnvironment lineEnd command hanging.1 indents.2
    next =>
      simp only [Option.some.injEq] at built
      subst built
      exact .environment lineEnd command indents.2

end Environments

namespace BareTokens

theorem number?_eq_some {text number rest : List Char}
    (found : number? text = some (number, rest)) :
    text = number ++ rest ∧ ∃ digit others, number = digit :: others ∧
      Text.isDecimal digit = true ∧ ∀ char ∈ others, Text.isDecimal char = true ∨ char = '.' := by
  have whole := List.takeWhile_append_dropWhile (p := Text.isDecimal) (l := text)
  have decimal : ∀ char ∈ text.takeWhile Text.isDecimal, Text.isDecimal char = true :=
    fun _ member => List.mem_takeWhile_imp member
  unfold number? at found
  dsimp only at found
  split at found
  next => simp at found
  next nonempty =>
    have notNil : text.takeWhile Text.isDecimal ≠ [] := fun isNil => nonempty (by rw [isNil]; rfl)
    obtain ⟨digit, others, digitsEq⟩ := List.exists_cons_of_ne_nil notNil
    have own := decimal digit (by simp [digitsEq])
    have digits : ∀ char ∈ others, Text.isDecimal char = true ∨ char = '.' :=
      fun char member => .inl (decimal char (by simp [digitsEq, member]))
    split at found
    next tail tailEq =>
      split at found
      next =>
        simp only [Option.some.injEq, Prod.mk.injEq] at found
        obtain ⟨rfl, rfl⟩ := found
        exact ⟨whole.symm, digit, others, digitsEq, own, digits⟩
      next =>
        simp only [Option.some.injEq, Prod.mk.injEq] at found
        obtain ⟨rfl, rfl⟩ := found
        refine ⟨?_, digit, others ++ '.' :: tail.takeWhile Text.isDecimal, by simp [digitsEq], own,
          fun char member => ?_⟩
        · rw [List.append_assoc, List.cons_append, List.takeWhile_append_dropWhile, ← tailEq, whole]
        · rcases List.mem_append.mp member with first | second
          · exact digits char first
          · rcases List.mem_cons.mp second with point | later
            · exact .inr point
            · exact .inl (List.mem_takeWhile_imp later)
    next =>
      simp only [Option.some.injEq, Prod.mk.injEq] at found
      obtain ⟨rfl, rfl⟩ := found
      exact ⟨whole.symm, digit, others, digitsEq, own, digits⟩

theorem afterDegreeSign?_eq_some {text rest : List Char}
    (found : afterDegreeSign? text = some rest) :
    ∃ sign, (sign = ['^', '\\', 'c', 'i', 'r', 'c'] ∨ sign = degreeSign) ∧ text = sign ++ rest := by
  obtain ⟨after, sign, ended⟩ := Option.bind_eq_some_iff.mp found
  split at ended
  next => simp at ended
  next =>
    simp only [Option.some.injEq] at ended
    subst ended
    rcases Option.or_eq_some_iff.mp sign with bare | ⟨_, braced⟩
    · exact ⟨_, .inl rfl, Text.afterWord?_eq_some bare⟩
    · exact ⟨_, .inr rfl, Text.afterWord?_eq_some braced⟩

theorem substitutes_degree : Substitutes degree toDegree (Stage.Replaces .bareTokens) := by
  intro previous text size value found
  unfold degree at found
  split at found
  next => simp at found
  next =>
    obtain ⟨⟨number, rest⟩, numberEq, ended⟩ := Option.bind_eq_some_iff.mp found
    obtain ⟨left, signEq, same⟩ := Option.map_eq_some_iff.mp ended
    simp only [Prod.mk.injEq] at same
    obtain ⟨rfl, rfl⟩ := same
    obtain ⟨textEq, digit, others, rfl, decimal, digits⟩ := number?_eq_some numberEq
    obtain ⟨sign, signs, restEq⟩ := afterDegreeSign?_eq_some signEq
    dsimp only at restEq
    subst restEq
    refine ⟨digit :: others ++ sign, left, by simp [textEq], by rw [textEq]; simp; omega,
      by simp, ?_⟩
    intro before after regions _ built
    unfold toDegree at built
    split at built
    next => simp at built
    next =>
      simp only [Option.some.injEq] at built
      subst built
      exact .degree decimal signs digits

theorem afterBraces?_eq_some {count : Nat} {text rest : List Char}
    (found : afterBraces? (count + 1) text = some rest) :
    ∃ inside, text = inside ++ '}' :: rest := by
  induction count generalizing text with
  | zero =>
      obtain ⟨after, group, same⟩ := Option.bind_eq_some_iff.mp found
      simp only [afterBraces?, Option.some.injEq] at same
      subst same
      obtain ⟨inside, rfl⟩ := Text.afterGroup?_eq_some group
      exact ⟨'{' :: inside, rfl⟩
  | succ count ih =>
      obtain ⟨after, group, later⟩ := Option.bind_eq_some_iff.mp found
      obtain ⟨inside, rfl⟩ := Text.afterGroup?_eq_some group
      obtain ⟨others, rfl⟩ := ih later
      exact ⟨'{' :: inside ++ '}' :: others, by simp⟩

theorem afterRoot?_eq_some {text rest : List Char} (found : afterRoot? text = some rest) :
    ∃ inside, text = inside ++ '}' :: rest := by
  unfold afterRoot? at found
  split at found
  next =>
    obtain ⟨after, group, later⟩ := Option.bind_eq_some_iff.mp found
    obtain ⟨inside, rfl⟩ := Text.afterGroup?_eq_some group
    obtain ⟨others, rfl⟩ := afterBraces?_eq_some later
    exact ⟨'[' :: inside ++ ']' :: others, by simp⟩
  next => exact afterBraces?_eq_some found

theorem afterMacro?_eq_some {text rest : List Char} (found : afterMacro? text = some rest) :
    ∃ inside, text = '\\' :: inside ++ '}' :: rest := by
  unfold afterMacro? at found
  split at found
  next tail =>
    split at found
    next arguments word =>
      split at found
      next => simp at found
      next =>
        obtain ⟨inside, argumentsEq⟩ := afterRoot?_eq_some found
        exact ⟨['s', 'q', 'r', 't'] ++ inside, by
          rw [Text.afterWord?_eq_some word, argumentsEq]; simp⟩
    next =>
      split at found
      next arguments word =>
        split at found
        next => simp at found
        next =>
          obtain ⟨inside, argumentsEq⟩ := afterBraces?_eq_some found
          exact ⟨['f', 'r', 'a', 'c'] ++ inside, by
            rw [Text.afterWord?_eq_some word, argumentsEq]; simp⟩
      next => simp at found
  next => simp at found

theorem rootOrFraction_eq_some {outer next previous : Option Char} {text : List Char} {size : Nat}
    (found : rootOrFraction outer next previous text = some (size, ())) :
    ∃ inside left, text = '\\' :: inside ++ ['}'] ++ left ∧ size = inside.length + 2 ∧
      previous.or outer ≠ some '$' ∧ Text.headOr left next ≠ some '$' := by
  unfold rootOrFraction at found
  split at found
  next => simp at found
  next =>
    obtain ⟨left, macroEq, ended⟩ := Option.bind_eq_some_iff.mp found
    split at ended
    next => simp at ended
    next apart =>
      simp only [Option.some.injEq, Prod.mk.injEq, and_true] at ended
      subst ended
      obtain ⟨inside, rfl⟩ := afterMacro?_eq_some macroEq
      rw [Text.head?_or] at apart
      simp only [Bool.or_eq_true, beq_iff_eq, not_or] at apart
      exact ⟨inside, left, by simp, by simp; omega, apart⟩

theorem substitutes_rootOrFraction (outer next : Option Char) :
    Substitutes (rootOrFraction outer next) (fun _ taken _ _ => some [Region.dollars taken])
      (Stage.Replaces .bareTokens) := by
  intro previous text size value found
  obtain ⟨inside, left, textEq, sizeEq, _⟩ := rootOrFraction_eq_some found
  refine ⟨'\\' :: inside ++ ['}'], left, textEq, by simp [sizeEq], by simp, ?_⟩
  intro before after regions _ built
  simp only [Option.some.injEq] at built
  subst built
  exact .token (.command (isCommand_between inside))

inductive IsIndex : List Char → Prop
  | run {text} : text ≠ [] → (∀ char ∈ text, char.isAlphanum = true) → IsIndex text
  | braces (inside) : IsIndex ('{' :: inside ++ ['}'])

theorem IsIndex.last {text : List Char} (isIndex : IsIndex text) :
    ∃ inside last, text = inside ++ [last] ∧ (last.isAlphanum = true ∨ last = '}') := by
  cases isIndex with
  | run filled own =>
      obtain ⟨inside, last, rfl⟩ := (List.eq_nil_or_concat' text).resolve_left filled
      exact ⟨inside, last, rfl, .inl (own last (by simp))⟩
  | braces inside => exact ⟨'{' :: inside, '}', rfl, .inr rfl⟩

theorem afterScript?_eq_some {text rest : List Char} (found : afterScript? text = some rest) :
    ∃ body, text = body ++ rest ∧ IsIndex body := by
  unfold afterScript? at found
  split at found
  next body =>
    split at found
    next after closed =>
      simp only [Option.some.injEq] at found
      subst found
      have whole := List.takeWhile_append_dropWhile
        (p := fun char => char != '{' && char != '}' && char != '\n') (l := body)
      rw [closed] at whole
      generalize body.takeWhile _ = inside at whole
      subst whole
      exact ⟨'{' :: inside ++ ['}'], by simp, .braces inside⟩
    next => simp at found
  next =>
    dsimp only at found
    split at found
    next shorter =>
      simp only [Option.some.injEq] at found
      subst found
      have whole := List.takeWhile_append_dropWhile (p := Char.isAlphanum) (l := text)
      refine ⟨text.takeWhile Char.isAlphanum, whole.symm, .run ?_ ?_⟩
      · intro isNil
        rw [isNil, List.nil_append] at whole
        rw [whole] at shorter
        omega
      · exact fun _ member => List.mem_takeWhile_imp member
    next => simp at found

theorem script_eq_some {previous : Option Char} {text : List Char} {size : Nat}
    (found : script previous text = some (size, ())) :
    ∃ letter mark body left, text = letter :: mark :: body ++ left ∧ size = body.length + 2 ∧
      letter.isAlpha = true ∧ (mark = '_' ∨ mark = '^') ∧ IsIndex body := by
  unfold script at found
  split at found
  next letter mark rest =>
    split at found
    next => simp at found
    next =>
      split at found
      next isLetter =>
        obtain ⟨left, scriptEq, ended⟩ := Option.bind_eq_some_iff.mp found
        split at ended
        next =>
          simp only [Option.some.injEq, Prod.mk.injEq, and_true] at ended
          subst ended
          obtain ⟨body, rfl, isIndex⟩ := afterScript?_eq_some scriptEq
          simp only [Bool.and_eq_true, Bool.or_eq_true, beq_iff_eq] at isLetter
          exact ⟨letter, mark, body, left, rfl, by simp; omega, isLetter.1, isLetter.2, isIndex⟩
        next => simp at ended
      next => simp at found
  next => simp at found

theorem substitutes_script : Substitutes script toInline (Stage.Replaces .bareTokens) := by
  intro previous text size value found
  obtain ⟨letter, mark, body, left, rfl, rfl, isLetter, isMark, isIndex⟩ := script_eq_some found
  obtain ⟨inside, last, rfl, ends⟩ := isIndex.last
  refine ⟨letter :: mark :: inside ++ [last], left, by simp, by simp, by simp, ?_⟩
  intro before after regions _ built
  unfold toInline at built
  split at built
  next => simp at built
  next =>
    simp only [Option.some.injEq] at built
    subst built
    exact .token (.script isLetter isMark ends)

end BareTokens

end DollarMath
