import DollarMath.Proofs.Lists
import DollarMath.Proofs.Text.Ends
import DollarMath.Proofs.Text.Groups

/-!
Links inside of lines: of which characters they are made, where they can be cut, and in which part
of a text they lie.
-/

namespace DollarMath

theorem Text.infix_of_blanks {left core right : List Char} {first last : Char} {inside : List Char}
    (leftBlank : ∀ char ∈ left, isBlank char = true)
    (rightBlank : ∀ char ∈ right, isBlank char = true)
    (solidFirst : isBlank first = false) (solidLast : isBlank last = false)
    (found : first :: inside ++ [last] <:+: left ++ (core ++ right)) :
    first :: inside ++ [last] <:+: core := by
  have notLeft (member : first ∈ left) : False := by
    rw [leftBlank first member] at solidFirst
    exact absurd solidFirst (by decide)
  have notRight (member : last ∈ right) : False := by
    rw [rightBlank last member] at solidLast
    exact absurd solidLast (by decide)
  obtain ⟨front, back, whole⟩ := found
  rw [List.append_assoc] at whole
  rcases append_eq_around whole.symm with ⟨gap, _, inBack⟩ | ⟨trail, inLeft, _⟩ |
    ⟨part, rest, split, filled, _, inLeft, _⟩
  · rcases append_eq_around inBack with ⟨gap, _, inRight⟩ | ⟨trail, inCore, _⟩ |
      ⟨part, rest, split, _, filled, _, inRight⟩
    · exact (notRight (by simp [inRight])).elim
    · exact ⟨gap, trail, by rw [inCore, List.append_assoc]⟩
    · have ends : rest.getLast? = some last := by
        rw [← List.getLast?_append_of_ne_nil part filled, ← split, List.getLast?_concat]
      exact (notRight (by rw [inRight]; simp [List.mem_of_getLast? ends])).elim
  · exact (notLeft (by simp [inLeft])).elim
  · have starts : part.head? = some first := by
      rw [← List.head?_append_of_ne_nil part filled, ← split]
      rfl
    exact (notLeft (by rw [inLeft]; simp [List.mem_of_mem_head? starts])).elim

namespace InlineLink

def isLabelChar (char : Char) : Bool :=
  char.isAlpha || char == ' '

def isTargetChar (char : Char) : Bool :=
  char.isAlphanum || ['_', '.', '/', '-'].contains char

def isLinkChar (char : Char) : Bool :=
  isLabelChar char || isTargetChar char || ['[', ']', '(', ')'].contains char

end InlineLink

/-- A link inside of a line: a label of letters and spaces in brackets, and a target of letters,
digits and a few signs in parentheses. -/
structure InlineLink where
  label : List Char
  target : List Char
  labelFilled : label ≠ []
  isLabel : label.all InlineLink.isLabelChar = true
  targetFilled : target ≠ []
  isTarget : target.all InlineLink.isTargetChar = true

namespace InlineLink

variable (link : InlineLink) {front back : List Char}

def text : List Char :=
  '[' :: (link.label ++ ']' :: '(' :: link.target) ++ [')']

theorem isLinkChar_text : ∀ char ∈ link.text, isLinkChar char = true := by
  intro char member
  simp only [text, List.cons_append, List.mem_cons, List.mem_append, List.not_mem_nil,
    or_false] at member
  rcases member with rfl | (inLabel | rfl | rfl | inTarget) | rfl
  · decide
  · simp [isLinkChar, List.all_eq_true.mp link.isLabel char inLabel]
  · decide
  · decide
  · simp [isLinkChar, List.all_eq_true.mp link.isTarget char inTarget]
  · decide

theorem not_mem_text {char : Char} (other : isLinkChar char = false) : char ∉ link.text := by
  intro member
  rw [link.isLinkChar_text char member] at other
  exact absurd other (by decide)

theorem not_mem_label {char : Char} (other : isLabelChar char = false) : char ∉ link.label := by
  intro member
  rw [List.all_eq_true.mp link.isLabel char member] at other
  exact absurd other (by decide)

theorem not_mem_target {char : Char} (other : isTargetChar char = false) : char ∉ link.target := by
  intro member
  rw [List.all_eq_true.mp link.isTarget char member] at other
  exact absurd other (by decide)

theorem text_ne_nil : link.text ≠ [] := by simp [text]

section Cut

variable {link}

structure Cut (link : InlineLink) (front back : List Char) : Prop where
  whole : link.text = front ++ back
  frontFilled : front ≠ []
  backFilled : back ≠ []

namespace Cut

variable (cut : link.Cut front back)
include cut

theorem isLinkChar_back : ∀ char ∈ back, isLinkChar char = true :=
  fun char member => link.isLinkChar_text char (by simp [cut.whole, member])

theorem not_mem_front {char : Char} (other : isLinkChar char = false) : char ∉ front :=
  fun member => link.not_mem_text other (by simp [cut.whole, member])

theorem not_mem_back {char : Char} (other : isLinkChar char = false) : char ∉ back :=
  fun member => link.not_mem_text other (by simp [cut.whole, member])

theorem square_front : '[' ∈ front ∧ '[' ∉ back := by
  have whole := cut.whole
  obtain ⟨first, rest, rfl⟩ := List.exists_cons_of_ne_nil cut.frontFilled
  simp only [text, List.cons_append, List.cons.injEq] at whole
  obtain ⟨rfl, others⟩ := whole
  refine ⟨by simp, fun member => ?_⟩
  have inOthers : '[' ∈ rest ++ back := by simp [member]
  have notLabel : '[' ∉ link.label := link.not_mem_label (by decide)
  have notTarget : '[' ∉ link.target := link.not_mem_target (by decide)
  simp [← others, notLabel, notTarget] at inOthers

theorem paren_back : back.getLast? = some ')' ∧ ')' ∉ front := by
  have whole := cut.whole
  obtain ⟨init, last, rfl⟩ := (List.eq_nil_or_concat' back).resolve_left cut.backFilled
  rw [text, ← List.append_assoc] at whole
  obtain ⟨others, same⟩ := List.append_inj' whole rfl
  obtain rfl : ')' = last := by simpa using same
  refine ⟨by simp, fun member => ?_⟩
  have inOthers : ')' ∈ front ++ init := by simp [member]
  have notLabel : ')' ∉ link.label := link.not_mem_label (by decide)
  have notTarget : ')' ∉ link.target := link.not_mem_target (by decide)
  simp [← others, notLabel, notTarget] at inOthers

theorem seam : front.getLast? = some ']' ↔ back.head? = some '(' := by
  have whole := cut.whole
  constructor
  · intro closed
    obtain ⟨init, rfl⟩ := List.getLast?_eq_some_iff.mp closed
    have notLabel : ']' ∉ link.label := link.not_mem_label (by decide)
    have notTarget : ']' ∉ link.target := link.not_mem_target (by decide)
    have parts : ('[' :: link.label) ++ ']' :: ('(' :: link.target ++ [')']) =
        init ++ ']' :: back := by
      simpa [text] using whole
    have same := (List.append_cons_inj_of_notMem (by simp [notLabel])
      (by simp [notTarget])).mp parts
    rw [← same.2.2]
    rfl
  · intro opened
    obtain ⟨rest, rfl⟩ := List.head?_eq_some_iff.mp opened
    have notLabel : '(' ∉ link.label := link.not_mem_label (by decide)
    have notTarget : '(' ∉ link.target := link.not_mem_target (by decide)
    have parts : ('[' :: link.label ++ [']']) ++ '(' :: (link.target ++ [')']) =
        front ++ '(' :: rest := by
      simpa [text] using whole
    have same := (List.append_cons_inj_of_notMem (by simp [notLabel])
      (by simp [notTarget])).mp parts
    rw [← same.1]
    exact List.getLast?_concat

/-- What starts inside of a link and goes on to a character of another kind holds the end of the
link before it. -/
theorem paren_before_wall {wall : Char} (other : isLinkChar wall = false)
    {lead tail rest : List Char} (starts : lead ++ wall :: tail <+: back ++ rest) : ')' ∈ lead := by
  rcases List.prefix_or_prefix_of_prefix (List.prefix_append back rest) starts with long | short
  · exact (prefix_of_wall long (cut.not_mem_back other)).subset
      (List.mem_of_getLast? cut.paren_back.1)
  · exact absurd (short.subset (by simp)) (cut.not_mem_back other)

/-- What ends inside of a link and comes from a character of another kind holds the start of the
link after it. -/
theorem square_after_wall {wall : Char} (other : isLinkChar wall = false)
    {lead before after : List Char} (whole : lead ++ front = before ++ wall :: after) :
    '[' ∈ after := by
  rcases append_eq_append_cons whole with ⟨rest, _, rfl⟩ | ⟨rest, _, rfl⟩
  · simp [cut.square_front.1]
  · exact absurd (by simp) (cut.not_mem_front other)

end Cut

end Cut

variable {link} {lead trail text : List Char}

theorem infix_strip (found : link.text <:+: text) : link.text <:+: Text.strip text := by
  obtain ⟨left, right, whole, leftBlank, rightBlank⟩ := Text.exists_strip text
  rw [whole, List.append_assoc] at found
  exact Text.infix_of_blanks leftBlank rightBlank (by decide) (by decide) found

theorem infix_of_indent {indent body : List Char}
    (indents : ∀ char ∈ indent, Text.isIndent char = true)
    (found : link.text <:+: indent ++ body) : link.text <:+: body := by
  have blanks : ∀ char ∈ indent, Text.isBlank char = true :=
    fun char member => Text.isBlank_of_isIndent (indents char member)
  rw [← List.append_nil body] at found
  exact Text.infix_of_blanks blanks (by simp) (by decide) (by decide) found

theorem infix_of_cons {char : Char} (other : char ≠ '[') (found : link.text <:+: char :: text) :
    link.text <:+: text := by
  rcases List.infix_cons_iff.mp found with start | later
  · exact absurd (List.cons_prefix_cons.mp start).1 other.symm
  · exact later

theorem infix_of_concat {char : Char} (other : char ≠ ')') (found : link.text <:+: text ++ [char]) :
    link.text <:+: text := by
  rcases List.infix_concat_iff.mp found with ⟨front, whole⟩ | inside
  · rw [InlineLink.text, ← List.append_assoc] at whole
    have last := (List.append_inj' whole rfl).2
    simp only [List.cons.injEq, and_true] at last
    exact absurd last.symm other
  · exact inside

/-- A label in square brackets has its own closing bracket, so a span from its start would end
there. -/
theorem not_encloses_squares {inside : List Char}
    (whole : link.text ++ trail = '[' :: inside ++ [']']) : ¬ Text.Encloses '[' ']' inside := by
  intro encloses
  have plain : ∀ char ∈ link.label, char ≠ '\\' ∧ char ≠ '[' ∧ char ≠ ']' := by
    have free {other : Char} (bare : isLabelChar other = false) :
        ∀ char ∈ link.label, char ≠ other := by
      rintro char member rfl
      exact link.not_mem_label bare member
    exact fun char member => ⟨free (by decide) char member, free (by decide) char member,
      free (by decide) char member⟩
  have insideEq : inside ++ [']'] = link.label ++ ']' :: ('(' :: link.target ++ ')' :: trail) := by
    simpa [InlineLink.text] using whole.symm
  have length := congrArg List.length insideEq
  rw [Text.Encloses, insideEq, Text.closingOffset?_append plain,
    Text.closingOffset?_closing (by decide) (by decide)] at encloses
  simp at length encloses
  omega

theorem not_encloses_parens {inside : List Char} (whole : lead ++ link.text = inside ++ [')']) :
    ¬ Text.Encloses '(' ')' inside := by
  have plain : ∀ char ∈ link.target, char ≠ '\\' ∧ char ≠ '(' ∧ char ≠ ')' := by
    have free {other : Char} (bare : isTargetChar other = false) :
        ∀ char ∈ link.target, char ≠ other := by
      rintro char member rfl
      exact link.not_mem_target bare member
    exact fun char member => ⟨free (by decide) char member, free (by decide) char member,
      free (by decide) char member⟩
  have group := @Text.closingOffset?_group '(' ')' (lead ++ '[' :: link.label ++ [']']) link.target
    (by rw [List.getLast?_concat]; decide) (by decide) (by decide) (by decide) plain 0
  have insideEq : inside = lead ++ '[' :: link.label ++ [']'] ++ '(' :: link.target := by
    rw [InlineLink.text, ← List.append_assoc] at whole
    simpa using (List.append_inj' whole rfl).1.symm
  intro encloses
  refine group ?_
  rw [Text.Encloses, insideEq] at encloses
  simpa using encloses

theorem infix_of_lines {left opening inside closing right : List Char}
    (indents : ∀ char ∈ left ++ right, Text.isIndent char = true)
    (blanks : ∀ char ∈ opening ++ closing, Text.isBlank char = true)
    (opened : '\n' ∈ opening) (closed : '\n' ∈ closing)
    (found : link.text <:+: left ++ '[' :: opening ++ inside ++ closing ++ ']' :: right) :
    link.text <:+: inside := by
  have onLine : '\n' ∉ link.text := link.not_mem_text (by decide)
  have indentFree {char : Char} (solid : Text.isIndent char = false) : char ∉ left ++ right := by
    intro member
    rw [indents char member] at solid
    exact absurd solid (by decide)
  have blankFree {char : Char} (solid : Text.isBlank char = false) : char ∉ opening ++ closing := by
    intro member
    rw [blanks char member] at solid
    exact absurd solid (by decide)
  have noClose : ']' ∉ left ++ right ∧ ']' ∉ opening ++ closing :=
    ⟨indentFree (by decide), blankFree (by decide)⟩
  have noOpen : '[' ∉ left ++ right ∧ '[' ∉ opening ++ closing :=
    ⟨indentFree (by decide), blankFree (by decide)⟩
  obtain ⟨first, second, rfl⟩ := List.append_of_mem opened
  obtain ⟨third, fourth, rfl⟩ := List.append_of_mem closed
  have split : left ++ '[' :: (first ++ '\n' :: second) ++ inside ++ (third ++ '\n' :: fourth) ++
      ']' :: right = (left ++ '[' :: first) ++
        '\n' :: ((second ++ (inside ++ third)) ++ '\n' :: (fourth ++ ']' :: right)) := by
    simp
  simp only [List.mem_append, List.mem_cons, not_or] at noClose noOpen
  rw [split] at found
  rcases infix_of_wall found onLine with inOpening | later
  · have close : ']' ∈ left ++ '[' :: first := inOpening.subset (by simp [InlineLink.text])
    simp [noClose] at close
  · rcases infix_of_wall later onLine with between | inClosing
    · exact Text.infix_of_blanks (fun char member => blanks char (by simp [member]))
        (fun char member => blanks char (by simp [member])) (by decide) (by decide) between
    · have opens : '[' ∈ fourth ++ ']' :: right := inClosing.subset (by simp [InlineLink.text])
      simp [noOpen] at opens

end InlineLink

end DollarMath
