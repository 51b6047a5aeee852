import DollarMath.Proofs.Conversion.Replaces

/-!
Texts whose line ends are all alike.
-/

namespace DollarMath.Text

structure Uniform (text : List Char) : Prop where
  matched : text.IsChain fun first second => first = '\r' ↔ second = '\n'
  first : text.head? ≠ some '\n'
  last : text.getLast? ≠ some '\r'

/-- A text that breaks its lines with the line end only and holds no other return. -/
inductive Lined (newline : List Char) : List Char → Prop
  | nil : Lined newline []
  | keep {char rest} : isReturn char = false → Lined newline rest → Lined newline (char :: rest)
  | feed {rest} : Lined newline rest → Lined newline (newline ++ rest)

namespace Lined

variable {newline text first second : List Char}

theorem append (left : Lined newline first) (right : Lined newline second) :
    Lined newline (first ++ second) := by
  induction left with
  | nil => exact right
  | keep plain _ ih => exact .keep plain ih
  | feed _ ih =>
      rw [List.append_assoc]
      exact .feed ih

theorem of_plain (plain : ∀ char ∈ text, isReturn char = false) : Lined newline text := by
  induction text with
  | nil => exact .nil
  | cons char text ih =>
      exact .keep (plain char (by simp)) (ih fun other member => plain other (by simp [member]))

theorem of_any (noReturns : text.any isReturn = false) : Lined newline text := by
  refine of_plain fun char member => ?_
  simpa using List.any_eq_false.mp noReturns char member

theorem lineEnd (newline : List Char) : Lined newline newline := by
  have whole : Lined newline (newline ++ []) := .feed .nil
  rwa [List.append_nil] at whole

theorem of_append (isEnd : IsLineEnd newline) (lined : Lined newline (first ++ second))
    (whole : first.getLast? = some '\r' → second.head? ≠ some '\n') :
    Lined newline first ∧ Lined newline second := by
  generalize wholeEq : first ++ second = text at lined
  induction lined generalizing first with
  | nil =>
      obtain ⟨rfl, rfl⟩ := List.append_eq_nil_iff.mp wholeEq
      exact ⟨.nil, .nil⟩
  | @keep char rest plain lined ih =>
      cases first with
      | nil =>
          rw [List.nil_append] at wholeEq
          exact ⟨.nil, wholeEq ▸ .keep plain lined⟩
      | cons other first =>
          obtain ⟨rfl, restEq⟩ := List.cons.inj wholeEq
          have later : first.getLast? = some '\r' → second.head? ≠ some '\n' := by
            intro last
            apply whole
            rw [List.getLast?_cons, last]
            rfl
          obtain ⟨left, right⟩ := ih later restEq
          exact ⟨.keep plain left, right⟩
  | @feed rest lined ih =>
      -- The cut is before the line end, inside of it, or behind it.
      rcases List.append_eq_append_iff.mp wholeEq with
        ⟨part, newlineEq, secondEq⟩ | ⟨part, rfl, restEq⟩
      · cases first with
        | nil =>
            obtain rfl := newlineEq
            exact ⟨.nil, secondEq ▸ .feed lined⟩
        | cons other first =>
            cases part with
            | nil =>
                rw [List.append_nil] at newlineEq
                rw [← newlineEq, secondEq]
                exact ⟨lineEnd newline, lined⟩
            | cons next part =>
                rcases isEnd with rfl | rfl
                · simp at newlineEq
                · cases first with
                  | cons _ first => simp at newlineEq
                  | nil =>
                      simp only [List.cons_append, List.nil_append, List.cons.injEq] at newlineEq
                      obtain ⟨rfl, rfl, _⟩ := newlineEq
                      exact absurd (by simp [secondEq]) (whole rfl)
      · have later : part.getLast? = some '\r' → second.head? ≠ some '\n' := by
          intro last
          apply whole
          rw [List.getLast?_append, last]
          rfl
        obtain ⟨left, right⟩ := ih later restEq.symm
        exact ⟨.feed left, right⟩

theorem not_single (isEnd : IsLineEnd newline) : ¬ Lined newline ['\r'] := by
  intro lined
  generalize textEq : ['\r'] = text at lined
  cases lined with
  | nil => simp at textEq
  | keep plain _ =>
      obtain ⟨rfl, _⟩ := List.cons.inj textEq
      exact absurd plain (by decide)
  | feed _ => rcases isEnd with rfl | rfl <;> simp at textEq

theorem head_eq (isEnd : IsLineEnd newline) {char : Char}
    (lined : Lined newline ('\r' :: char :: text)) : char = '\n' := by
  by_contra other
  have cut : Lined newline (['\r'] ++ char :: text) := lined
  exact not_single isEnd (of_append isEnd cut (by simpa using other)).1

theorem getLast?_ne (isEnd : IsLineEnd newline) (lined : Lined newline text) :
    text.getLast? ≠ some '\r' := by
  intro last
  obtain ⟨front, rfl⟩ := List.getLast?_eq_some_iff.mp last
  exact not_single isEnd (of_append isEnd lined (by simp)).2

theorem of_isInfix (isEnd : IsLineEnd newline) (lined : Lined newline text) {part : List Char}
    (inText : part <:+: text) (head : part.head? ≠ some '\n')
    (last : part.getLast? ≠ some '\r') : Lined newline part := by
  obtain ⟨left, right, rfl⟩ := inText
  by_cases empty : part = []
  · rw [empty]
    exact .nil
  · rw [List.append_assoc] at lined
    have later := (of_append isEnd lined fun _ => by rwa [List.head?_append_of_ne_nil _ empty]).2
    exact (of_append isEnd later fun returned => absurd returned last).1

theorem strip (isEnd : IsLineEnd newline) (lined : Lined newline text) {inside : List Char}
    (inText : inside <:+: text) : Lined newline (strip inside) := by
  refine of_isInfix isEnd lined ((strip_isInfix inside).trans inText) ?_ ?_
  · intro feed
    exact absurd (not_isBlank_head_strip feed) (by decide)
  · intro ret
    exact absurd (not_isBlank_getLast_strip ret) (by decide)

theorem free (lined : Lined ['\n'] text) : '\r' ∉ text := by
  induction lined with
  | nil => simp
  | keep plain _ ih =>
      rintro member
      rcases List.mem_cons.mp member with rfl | later
      · exact absurd plain (by decide)
      · exact ih later
  | feed _ ih => simpa using ih

theorem of_free (free : '\r' ∉ text) : Lined ['\n'] text := by
  induction text with
  | nil => exact .nil
  | cons char text ih =>
      have later := ih fun member => free (by simp [member])
      by_cases feed : char = '\n'
      · rw [feed]
        exact .feed later
      · refine .keep ?_ later
        have notReturn : char ≠ '\r' := by
          rintro rfl
          exact free (by simp)
        simp [isReturn, feed, notReturn]

theorem uniform (lined : Lined ['\r', '\n'] text) : Uniform text := by
  induction lined with
  | nil => exact ⟨.nil, by simp, by simp⟩
  | @keep char rest plain _ ih =>
      have other : char ≠ '\r' ∧ char ≠ '\n' := by simpa [isReturn] using plain
      refine ⟨List.isChain_cons.mpr ⟨?_, ih.matched⟩, by simpa using other.2, ?_⟩
      · intro next isNext
        refine iff_of_false other.1 ?_
        rintro rfl
        exact ih.first isNext
      · by_cases empty : rest = []
        · simpa [empty] using other.1
        · rw [List.getLast?_cons, List.getLast?_eq_some_getLast empty]
          simpa [List.getLast?_eq_some_getLast empty] using ih.last
  | @feed rest _ ih =>
      refine ⟨List.isChain_cons_cons.mpr ⟨by simp, List.isChain_cons.mpr ⟨?_, ih.matched⟩⟩,
        by simp, ?_⟩
      · intro next isNext
        refine iff_of_false (by decide) ?_
        rintro rfl
        exact ih.first isNext
      · by_cases empty : rest = []
        · simp [empty]
        · rw [List.getLast?_append_of_ne_nil _ empty]
          exact ih.last

theorem of_uniform (uniform : Uniform text) : Lined ['\r', '\n'] text := by
  fun_induction unifyReturns text with
  | case1 => exact .nil
  | case2 rest ih =>
      have matched := (List.isChain_cons_cons.mp uniform.matched).2
      refine .feed (ih ⟨(List.isChain_cons.mp matched).2, ?_, ?_⟩)
      · intro feed
        have both := (List.isChain_cons.mp matched).1 '\n' feed
        exact absurd (both.mpr rfl) (by decide)
      · intro ret
        have last := uniform.last
        rw [List.getLast?_cons_cons, List.getLast?_cons, ret] at last
        exact last rfl
  | case3 char rest notPair ih =>
      have parts := List.isChain_cons.mp uniform.matched
      have notFeed : char ≠ '\n' := by simpa using uniform.first
      have notReturn : char ≠ '\r' := by
        rintro rfl
        cases rest with
        | nil => exact uniform.last rfl
        | cons next rest => exact notPair rest rfl (by rw [(parts.1 next rfl).mp rfl])
      refine .keep (by simp [isReturn, notFeed, notReturn]) (ih ⟨parts.2, ?_, ?_⟩)
      · intro feed
        exact notReturn ((parts.1 '\n' feed).mpr rfl)
      · intro ret
        have last := uniform.last
        rw [List.getLast?_cons, ret] at last
        exact last rfl

/-- Such a text is judged to have its line end, a plain line feed even if it has no line feed. -/
theorem lineEnding_eq (isEnd : IsLineEnd newline) (lined : Lined newline text)
    (fed : newline = ['\n'] ∨ '\n' ∈ text) : lineEnding text = newline := by
  by_cases feed : '\n' ∈ text
  · obtain ⟨front, back, rfl, noFeed⟩ := List.eq_append_cons_of_mem feed
    rw [lineEnding_of_split noFeed]
    rcases isEnd with rfl | rfl
    · have notReturn : front.getLast? ≠ some '\r' := by
        intro last
        exact lined.free (by simp [List.mem_of_getLast? last])
      rw [if_neg notReturn]
    · have isReturn : front.getLast? = some '\r' := by
        by_contra other
        have later := (of_append (.inr rfl) lined fun last => absurd last other).2
        exact later.uniform.first rfl
      rw [if_pos isReturn]
  · rw [lineEnding_of_free feed]
    exact (fed.resolve_right feed).symm

end Lined

end DollarMath.Text
