import DollarMath.Proofs.Document.Fences
import DollarMath.Proofs.Region.Fragments

/-!
What cutting a text at every line break and cutting it at line feeds alone have in common.
-/

namespace DollarMath.Text

structure IsCutter (cut : List Char → List (List Char)) : Prop where
  nil : cut [] = []
  flatten : ∀ text, (cut text).flatten = text
  append : ∀ first second, first.getLast? = some '\n' → cut (first ++ second) = cut first ++ cut second
  single : ∀ line ending, line ≠ [] → (∀ char ∈ line, isLineBreak char = false) →
    ending = [] ∨ ending = ['\n'] ∨ ending = ['\r', '\n'] → cut (line ++ ending) = [line ++ ending]
  broken : ∀ text above line below, cut text = above ++ line :: below →
    ∀ char, above.flatten.getLast? = some char → isLineBreak char = true

theorem getLast?_flatten_concat {above : List (List Char)} {last : List Char} (filled : last ≠ []) :
    (above ++ [last]).flatten.getLast? = last.getLast? := by
  rw [List.flatten_append, List.flatten_singleton, List.getLast?_append_of_ne_nil _ filled]

theorem isCutter_lines : IsCutter lines := by
  refine ⟨rfl, flatten_lines, ?_, ?_, ?_⟩
  · intro first second feed
    refine lines_append ⟨⟨'\n', feed, by decide⟩, ?_⟩
    rw [feed]
    simp
  · rintro line ending filled unbroken (rfl | rfl | rfl)
    · rw [List.append_nil]
      exact lines_of_unbroken filled unbroken
    · exact lines_unbroken_append unbroken rfl
    · exact lines_unbroken_append unbroken rfl
  · intro text above line below split char last
    have areLines := areLines_lines text
    rw [split] at areLines
    obtain rfl | ⟨init, final, rfl⟩ := List.eq_nil_or_concat' above
    · simp at last
    · rw [getLast?_flatten_concat (areLines.ne_nil (by simp))] at last
      obtain ⟨_, _, between⟩ := List.isChain_append.mp areLines.broken
      obtain ⟨other, otherEq, isBreak⟩ := (between final (by simp) line (by simp)).ended
      rw [last, Option.some.injEq] at otherEq
      exact otherEq ▸ isBreak

theorem pairwise_of_single {line : List Char} (single : lines line = [line]) :
    line.Pairwise fun char later => isLineBreak char = true → isLineBreak later = true := by
  induction line with
  | nil => exact .nil
  | cons char rest ih =>
      by_cases paired : char = '\r' ∧ rest.head? = some '\n'
      · obtain ⟨rfl, feed⟩ := paired
        obtain ⟨others, rfl⟩ := List.head?_eq_some_iff.mp feed
        simp only [lines, List.cons.injEq, true_and] at single
        obtain rfl : others = [] := lines_eq_nil.mp single.2
        simp [isLineBreak]
      · have whole : char = '\r' → rest.head? ≠ some '\n' := fun ret feed => paired ⟨ret, feed⟩
        rw [lines_cons whole] at single
        by_cases isBreak : isLineBreak char = true
        · rw [if_pos isBreak, List.cons.injEq] at single
          obtain rfl : rest = [] := lines_eq_nil.mp single.2
          simp
        · rw [if_neg isBreak] at single
          refine List.pairwise_cons.mpr ⟨fun later _ own => absurd own isBreak, ?_⟩
          cases linesEq : lines rest with
          | nil =>
              rw [lines_eq_nil.mp linesEq]
              exact .nil
          | cons first others =>
              rw [linesEq] at single
              simp only [consLine, List.cons.injEq, true_and] at single
              obtain ⟨rfl, rfl⟩ := single
              exact ih linesEq

theorem physicalLines_append {first second : List Char} (feed : first.getLast? = some '\n') :
    physicalLines (first ++ second) = physicalLines first ++ physicalLines second := by
  induction first with
  | nil => simp at feed
  | cons char first ih =>
      by_cases last : first = []
      · subst last
        obtain rfl : char = '\n' := by simpa using feed
        rfl
      · have later : first.getLast? = some '\n' := by
          obtain ⟨next, rest, rfl⟩ := List.exists_cons_of_ne_nil last
          rwa [List.getLast?_cons_cons] at feed
        have notNil : physicalLines first ≠ [] := by
          intro isNil
          rw [← flatten_physicalLines first, isNil] at last
          exact last rfl
        rw [List.cons_append, physicalLines, physicalLines, ih later]
        split
        · rfl
        · rw [consLine_append notNil]

theorem physicalLines_of_free {text : List Char} (filled : text ≠ []) (free : '\n' ∉ text) :
    physicalLines text = [text] := by
  induction text with
  | nil => exact absurd rfl filled
  | cons char rest ih =>
      have own : char ≠ '\n' := by
        rintro rfl
        simp at free
      rw [physicalLines, if_neg own]
      by_cases last : rest = []
      · rw [last]
        rfl
      · rw [ih last fun member => free (by simp [member])]
        rfl

theorem physicalLines_feed {text : List Char} (free : '\n' ∉ text) (rest : List Char) :
    physicalLines (text ++ '\n' :: rest) = (text ++ ['\n']) :: physicalLines rest := by
  induction text with
  | nil => rfl
  | cons char text ih =>
      have own : char ≠ '\n' := by
        rintro rfl
        simp at free
      rw [List.cons_append, physicalLines, if_neg own, ih fun member => free (by simp [member])]
      rfl

theorem splitAt_of_free {mark : Char} {text : List Char} (free : mark ∉ text) :
    splitAt mark text = [text] := by
  induction text with
  | nil => rfl
  | cons char text ih =>
      have own : char ≠ mark := by
        rintro rfl
        simp at free
      rw [splitAt, if_neg own, ih fun member => free (by simp [member])]
      rfl

theorem splitAt_mark {mark : Char} {text : List Char} (free : mark ∉ text) (rest : List Char) :
    splitAt mark (text ++ mark :: rest) = text :: splitAt mark rest := by
  induction text with
  | nil => simp [splitAt]
  | cons char text ih =>
      have own : char ≠ mark := by
        rintro rfl
        simp at free
      rw [List.cons_append, splitAt, if_neg own, ih fun member => free (by simp [member])]
      rfl

/-- A test that line feeds do not matter to holds as often between them as on physical lines. -/
theorem countP_splitFeeds {test : List Char → Bool} (empty : test [] = false)
    (same : ∀ line, test (line ++ ['\n']) = test line) (text : List Char) :
    (splitFeeds text).countP test = (physicalLines text).countP test := by
  induction size : text.length using Nat.strong_induction_on generalizing text with
  | _ count ih =>
      unfold splitFeeds
      by_cases feed : '\n' ∈ text
      · obtain ⟨line, rest, rfl, free⟩ := List.eq_append_cons_of_mem feed
        have shorter : rest.length < count := by
          rw [← size]
          simp only [List.length_append, List.length_cons]
          omega
        have later := ih rest.length shorter rest rfl
        rw [splitAt_mark free, physicalLines_feed free, List.countP_cons, List.countP_cons, same]
        rw [splitFeeds] at later
        rw [later]
      · rw [splitAt_of_free feed]
        by_cases filled : text = []
        · rw [filled]
          simp [physicalLines, empty]
        · rw [physicalLines_of_free filled feed]

theorem isCutter_physicalLines : IsCutter physicalLines := by
  refine ⟨rfl, flatten_physicalLines, fun _ _ feed => physicalLines_append feed, ?_, ?_⟩
  · intro line ending filled unbroken ends
    have free : '\n' ∉ line := by
      intro member
      exact absurd (unbroken '\n' member) (by decide)
    rcases ends with rfl | rfl | rfl
    · rw [List.append_nil]
      exact physicalLines_of_free filled free
    · exact physicalLines_feed free []
    · have both : physicalLines ((line ++ ['\r']) ++ ['\n']) = [(line ++ ['\r']) ++ ['\n']] :=
        physicalLines_feed (by simpa using free) []
      simpa using both
  · intro text above line below split char last
    obtain rfl | ⟨init, final, rfl⟩ := List.eq_nil_or_concat' above
    · simp at last
    · rw [List.append_assoc, List.singleton_append] at split
      rcases physicalLines_shape split with ⟨body, rfl, _⟩ | ⟨_, isNil⟩
      · rw [getLast?_flatten_concat (by simp), List.getLast?_concat, Option.some.injEq] at last
        rw [← last]
        decide
      · simp at isNil

/-- Where nothing but line feeds breaks lines, both ways to cut a text into lines agree. -/
theorem lines_eq_physicalLines {text : List Char}
    (feeds : ∀ char ∈ text, isLineBreak char = true → char = '\n') :
    lines text = physicalLines text := by
  induction text with
  | nil => rfl
  | cons char rest ih =>
      obtain ⟨own, later⟩ := List.forall_mem_cons.mp feeds
      have whole : char = '\r' → rest.head? ≠ some '\n' := by
        rintro rfl
        exact absurd (own (by decide)) (by decide)
      rw [lines_cons whole, physicalLines, ih later]
      by_cases feed : char = '\n'
      · rw [if_pos feed, if_pos (feed ▸ by decide)]
      · rw [if_neg feed, if_neg fun isBreak => feed (own isBreak)]

theorem eq_feed_of_all {text : List Char}
    (all : (text.all fun char => !isLineBreak char || char == '\n') = true) :
    ∀ char ∈ text, isLineBreak char = true → char = '\n' := by
  intro char member isBreak
  have own := List.all_eq_true.mp all char member
  simpa [isBreak] using own

end DollarMath.Text
