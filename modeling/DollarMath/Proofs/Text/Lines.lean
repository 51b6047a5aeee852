import DollarMath.Proofs.Text.Ends
import Mathlib.Data.List.Chain

/-!
When a list of texts is the list of lines of what it spells: each is one line, and line breaks stand
between them.
-/

namespace DollarMath.Text

theorem not_isReturn_of_not_isLineBreak {char : Char} (solid : isLineBreak char = false) :
    isReturn char = false := by
  by_contra ret
  simp only [Bool.not_eq_false, isReturn, Bool.or_eq_true, beq_iff_eq] at ret
  rcases ret with rfl | rfl
  · simp [isLineBreak] at solid
  · simp [isLineBreak] at solid

theorem isBlank_of_isLineBreak {char : Char} (isBreak : isLineBreak char = true) :
    isBlank char = true := by
  simp only [isLineBreak, isBlank, isBlankCode] at isBreak ⊢
  generalize char.toNat = code at isBreak ⊢
  simp only [Bool.or_eq_true, Bool.and_eq_true, decide_eq_true_eq, beq_iff_eq] at isBreak ⊢
  omega

theorem not_isLineBreak_of_not_isBlank {char : Char} (solid : isBlank char = false) :
    isLineBreak char = false := by
  by_contra isBreak
  rw [isBlank_of_isLineBreak (by simpa using isBreak)] at solid
  exact absurd solid (by decide)

structure Breaks (first second : List Char) : Prop where
  ended : ∃ char, first.getLast? = some char ∧ isLineBreak char = true
  uncut : first.getLast? = some '\r' → second.head? ≠ some '\n'

theorem Breaks.cons {char : Char} {first second : List Char} (nonempty : first ≠ []) :
    Breaks (char :: first) second ↔ Breaks first second := by
  have last : (char :: first).getLast? = first.getLast? := by
    obtain ⟨next, rest, rfl⟩ := List.exists_cons_of_ne_nil nonempty
    rw [List.getLast?_cons_cons]
  constructor
  · intro broken
    exact ⟨last ▸ broken.ended, last ▸ broken.uncut⟩
  · intro broken
    exact ⟨last ▸ broken.ended, last ▸ broken.uncut⟩

theorem Breaks.ne_nil {first second : List Char} (broken : Breaks first second) : first ≠ [] := by
  rintro rfl
  obtain ⟨char, isLast, _⟩ := broken.ended
  simp at isLast

theorem Breaks.append_left {text ending second : List Char} (broken : Breaks ending second) :
    Breaks (text ++ ending) second := by
  have last : (text ++ ending).getLast? = ending.getLast? :=
    List.getLast?_append_of_ne_nil text broken.ne_nil
  exact ⟨last ▸ broken.ended, last ▸ broken.uncut⟩

theorem lines_cons {char : Char} {rest : List Char} (whole : char = '\r' → rest.head? ≠ some '\n') :
    lines (char :: rest) =
      if isLineBreak char then [char] :: lines rest else consLine char (lines rest) := by
  rw [lines]
  rintro others rfl rfl
  exact whole rfl rfl

theorem consLine_append {char : Char} {first second : List (List Char)} (nonempty : first ≠ []) :
    consLine char (first ++ second) = consLine char first ++ second := by
  obtain ⟨line, others, rfl⟩ := List.exists_cons_of_ne_nil nonempty
  rfl

theorem lines_eq_nil {text : List Char} : lines text = [] ↔ text = [] := by
  constructor
  · intro isNil
    rw [← flatten_lines text, isNil]
    rfl
  · rintro rfl
    rfl

theorem Breaks.whole_cons {char : Char} {rest second : List Char}
    (broken : Breaks (char :: rest) second)
    (unpaired : ∀ others, char = '\r' → rest = '\n' :: others → False) :
    char = '\r' → (rest ++ second).head? ≠ some '\n' := by
  intro isReturn feed
  cases rest with
  | nil => exact broken.uncut (by simp [isReturn]) feed
  | cons next rest =>
      simp only [List.cons_append, List.head?_cons, Option.some.injEq] at feed
      exact unpaired rest isReturn (by rw [feed])

theorem lines_append {first second : List Char} (broken : Breaks first second) :
    lines (first ++ second) = lines first ++ lines second := by
  fun_induction lines first with
  | case1 => exact absurd rfl broken.ne_nil
  | case2 rest ih =>
      by_cases last : rest = []
      · subst last
        rfl
      · have later : Breaks rest second := (Breaks.cons last).mp ((Breaks.cons (by simp)).mp broken)
        rw [List.cons_append, List.cons_append, lines, ih later]
        rfl
  | case3 char rest unpaired isBreak ih =>
      rw [List.cons_append, lines_cons (broken.whole_cons unpaired), isBreak, if_pos rfl]
      by_cases last : rest = []
      · subst last
        rfl
      · rw [ih ((Breaks.cons last).mp broken), List.cons_append]
  | case4 char rest unpaired noBreak ih =>
      have more : rest ≠ [] := by
        rintro rfl
        obtain ⟨last, lastEq, isBreak⟩ := broken.ended
        simp only [List.getLast?_singleton, Option.some.injEq] at lastEq
        exact noBreak (lastEq ▸ isBreak)
      rw [List.cons_append, lines_cons (broken.whole_cons unpaired), if_neg noBreak,
        ih ((Breaks.cons more).mp broken),
          consLine_append (fun noLines => more (lines_eq_nil.mp noLines))]

structure AreLines (all : List (List Char)) : Prop where
  single : ∀ line ∈ all, lines line = [line]
  broken : all.IsChain Breaks

theorem AreLines.ne_nil {all : List (List Char)} {line : List Char} (areLines : AreLines all)
    (member : line ∈ all) : line ≠ [] := by
  rintro rfl
  simpa [lines] using areLines.single [] member

theorem AreLines.tail {line : List Char} {lines : List (List Char)}
    (areLines : AreLines (line :: lines)) : AreLines lines :=
  ⟨fun other member => areLines.single other (List.mem_cons_of_mem _ member),
    areLines.broken.tail⟩

theorem AreLines.of_append {first second : List (List Char)}
    (areLines : AreLines (first ++ second)) :
    AreLines first ∧ AreLines second := by
  obtain ⟨left, right, _⟩ := List.isChain_append.mp areLines.broken
  refine ⟨⟨fun line member => areLines.single line (by simp [member]), left⟩,
    ⟨fun line member => areLines.single line (by simp [member]), right⟩⟩

theorem AreLines.append {first second : List (List Char)} (left : AreLines first)
    (right : AreLines second)
    (between : ∀ last, first.getLast? = some last → ∀ next, second.head? = some next →
      Breaks last next) : AreLines (first ++ second) := by
  refine ⟨?_, List.isChain_append.mpr ⟨left.broken, right.broken, between⟩⟩
  intro line member
  rcases List.mem_append.mp member with inFirst | inSecond
  · exact left.single line inFirst
  · exact right.single line inSecond

theorem AreLines.cut_last {front after : List (List Char)} {last body : List Char}
    (areLines : AreLines (front ++ last :: after)) (single : lines body = [body])
    (head : body.head? = last.head?) : AreLines (front ++ [body]) := by
  obtain ⟨left, _, between⟩ := List.isChain_append.mp areLines.broken
  refine ⟨?_, List.isChain_append.mpr ⟨left, by simp, ?_⟩⟩
  · intro line member
    rcases List.mem_append.mp member with inFront | isBody
    · exact areLines.single line (by simp [inFront])
    · rw [List.mem_singleton.mp isBody]
      exact single
  · intro line isLast next isNext
    simp only [List.head?_cons, Option.mem_def, Option.some.injEq] at isNext
    have broken := between line isLast last (by simp)
    subst isNext
    exact ⟨broken.ended, head ▸ broken.uncut⟩

theorem lines_of_unbroken {text : List Char} (nonempty : text ≠ [])
    (unbroken : ∀ char ∈ text, isLineBreak char = false) : lines text = [text] := by
  induction text with
  | nil => exact absurd rfl nonempty
  | cons char rest ih =>
      have own := unbroken char (by simp)
      have unpaired : char = '\r' → rest.head? ≠ some '\n' := by
        rintro rfl
        exact absurd own (by decide)
      rw [lines_cons unpaired, own]
      cases rest with
      | nil => rfl
      | cons next rest =>
          rw [ih (by simp) fun other member => unbroken other (by simp [member])]
          rfl

theorem lines_flatten {all : List (List Char)} (areLines : AreLines all) :
    lines all.flatten = all := by
  induction all with
  | nil => rfl
  | cons line all ih =>
      have own := areLines.single line (by simp)
      cases all with
      | nil => simpa using own
      | cons next all =>
          obtain ⟨broken, chain⟩ := List.isChain_cons_cons.mp areLines.broken
          have rest := ih areLines.tail
          have nextFilled : next ≠ [] := areLines.ne_nil (by simp)
          have ahead : Breaks line (next :: all).flatten := by
            obtain ⟨first, others, rfl⟩ := List.exists_cons_of_ne_nil nextFilled
            exact ⟨broken.ended, by simpa using broken.uncut⟩
          rw [List.flatten_cons, lines_append ahead, own, rest]
          rfl

theorem areLines_lines (text : List Char) : AreLines (lines text) := by
  fun_induction lines text with
  | case1 => exact ⟨by simp, by simp⟩
  | case2 rest ih =>
      refine ⟨?_, ?_⟩
      · intro line member
        rcases List.mem_cons.mp member with rfl | later
        · rfl
        · exact ih.single line later
      · refine List.isChain_cons.mpr ⟨?_, ih.broken⟩
        intro next _
        exact ⟨⟨'\n', by simp, by decide⟩, by simp⟩
  | case3 char rest unpaired isBreak ih =>
      refine ⟨?_, ?_⟩
      · intro line member
        rcases List.mem_cons.mp member with rfl | later
        · rw [lines_cons (by simp), isBreak, if_pos rfl]
          rfl
        · exact ih.single line later
      · refine List.isChain_cons.mpr ⟨?_, ih.broken⟩
        intro next first
        obtain ⟨others, linesEq⟩ := List.head?_eq_some_iff.mp first
        obtain ⟨head, body, rfl⟩ :=
          List.exists_cons_of_ne_nil (ih.ne_nil (List.mem_of_mem_head? first))
        refine ⟨⟨char, by simp, isBreak⟩, ?_⟩
        intro isReturn feed
        have whole := flatten_lines rest
        simp only [List.getLast?_singleton, Option.some.injEq] at isReturn
        simp only [List.head?_cons, Option.some.injEq] at feed
        rw [linesEq, feed] at whole
        exact unpaired _ isReturn (by simpa using whole.symm)
  | case4 char rest unpaired noBreak ih =>
      have alone : char = '\r' → False := by
        rintro rfl
        exact noBreak (by decide)
      cases linesEq : lines rest with
      | nil =>
          have isNil := lines_eq_nil.mp linesEq
          refine ⟨?_, by simp [consLine]⟩
          intro line member
          simp only [consLine, List.mem_singleton] at member
          rw [member, lines_cons (by simp), if_neg noBreak]
          rfl
      | cons first others =>
          rw [linesEq] at ih
          have firstFilled : first ≠ [] := ih.ne_nil (by simp)
          refine ⟨?_, ?_⟩
          · intro line member
            rcases List.mem_cons.mp member with rfl | later
            · rw [lines_cons (fun isReturn => absurd isReturn alone), if_neg noBreak,
                ih.single first (by simp)]
              rfl
            · exact ih.single line (List.mem_cons_of_mem _ later)
          · rw [consLine, List.isChain_cons]
            obtain ⟨broken, chain⟩ := List.isChain_cons.mp ih.broken
            exact ⟨fun next head => (Breaks.cons firstFilled).mpr (broken next head), chain⟩

theorem head?_of_lines {text line : List Char} (first : (lines text).head? = some line) :
    line.head? = text.head? := by
  obtain ⟨others, linesEq⟩ := List.head?_eq_some_iff.mp first
  obtain ⟨char, rest, rfl⟩ := List.exists_cons_of_ne_nil
    ((areLines_lines text).ne_nil (List.mem_of_mem_head? first))
  have whole := flatten_lines text
  rw [linesEq] at whole
  rw [← whole]
  rfl

theorem splitAtLine?_eq_none_iff {passes : List Char → Bool} {lines : List (List Char)} :
    splitAtLine? passes lines = none ↔ ∀ line ∈ lines, passes line = false := by
  induction lines with
  | nil => simp [splitAtLine?]
  | cons line rest ih =>
      rw [splitAtLine?, List.forall_mem_cons]
      cases own : passes line with
      | true => simp
      | false => simpa using ih

theorem splitAtLine?_map {passes : List Char → Bool} {change : List Char → List Char}
    (same : ∀ line, passes (change line) = passes line) (lines : List (List Char)) :
    splitAtLine? passes (lines.map change) = (splitAtLine? passes lines).map fun parts =>
      (parts.1.map change, change parts.2.1, parts.2.2.map change) := by
  induction lines with
  | nil => rfl
  | cons line rest ih =>
      rw [List.map_cons, splitAtLine?, splitAtLine?, same, ih]
      split
      · rfl
      · cases splitAtLine? passes rest <;> rfl

section Blocks

variable {closer? : List Char → Option (List Char → Bool)} {line : List Char}
  {rest : List (List Char)}

theorem block?_eq_none_iff :
    block? closer? line rest = none ↔
      ∀ closes, closer? line = some closes → ∀ other ∈ rest, closes other = false := by
  cases closerEq : closer? line <;> simp [block?, closerEq, splitAtLine?_eq_none_iff]

theorem block?_map {change : List Char → List Char}
    (opens : ∀ line, closer? (change line) = closer? line)
    (ends : ∀ line closes, closer? line = some closes →
      ∀ other, closes (change other) = closes other) :
    block? closer? (change line) (rest.map change) = (block? closer? line rest).map fun parts =>
      (parts.1.map change, change parts.2.1, parts.2.2.map change) := by
  rw [block?, block?, opens]
  cases closerEq : closer? line with
  | none => rfl
  | some closes => exact splitAtLine?_map (ends line closes closerEq) rest

end Blocks

end DollarMath.Text
