import DollarMath.Text.Lines
import Mathlib.Data.List.TakeWhile

/-!
The characters around a place in a text, and what is cut off at the ends of a text.
-/

namespace DollarMath.Text

def lastOr (before : Option Char) : List Char → Option Char
  | [] => before
  | char :: rest => lastOr (some char) rest

def headOr : List Char → (after : Option Char) → Option Char
  | [], after => after
  | char :: _, _ => some char

@[simp] theorem lastOr_nil (before : Option Char) : lastOr before [] = before := rfl

@[simp] theorem lastOr_cons (before : Option Char) (char : Char) (rest : List Char) :
    lastOr before (char :: rest) = lastOr (some char) rest := rfl

@[simp] theorem headOr_nil (after : Option Char) : headOr [] after = after := rfl

@[simp] theorem headOr_cons (char : Char) (rest : List Char) (after : Option Char) :
    headOr (char :: rest) after = some char := rfl

@[simp] theorem lastOr_append (before : Option Char) (first second : List Char) :
    lastOr before (first ++ second) = lastOr (lastOr before first) second := by
  induction first generalizing before with
  | nil => rfl
  | cons char first ih => exact ih (some char)

@[simp] theorem headOr_append (first second : List Char) (after : Option Char) :
    headOr (first ++ second) after = headOr first (headOr second after) := by
  cases first <;> rfl

theorem getLast?_or (text : List Char) (before : Option Char) :
    text.getLast?.or before = lastOr before text := by
  induction text generalizing before with
  | nil => rfl
  | cons char text ih =>
      rw [lastOr_cons, ← ih, List.getLast?_cons]
      cases text.getLast? <;> rfl

theorem head?_or (text : List Char) (after : Option Char) :
    text.head?.or after = headOr text after := by
  cases text <;> rfl

theorem lastOr_of_ne_nil {text : List Char} (nonempty : text ≠ []) (before : Option Char) :
    lastOr before text = text.getLast? := by
  obtain ⟨char, rest, rfl⟩ := List.exists_cons_of_ne_nil nonempty
  rw [← getLast?_or]
  simp [List.getLast?_cons]

theorem lastOr_ne {before : Option Char} {char : Char} {text : List Char}
    (other : before ≠ some char) (bare : char ∉ text) : lastOr before text ≠ some char := by
  by_cases empty : text = []
  · simpa [empty] using other
  · rw [lastOr_of_ne_nil empty]
    exact fun last => bare (List.mem_of_getLast? last)

theorem headOr_of_ne_nil {text : List Char} (nonempty : text ≠ []) (after : Option Char) :
    headOr text after = text.head? := by
  obtain ⟨char, rest, rfl⟩ := List.exists_cons_of_ne_nil nonempty
  rfl

theorem lastOr_getLast? (before text : List Char) :
    lastOr before.getLast? text = (before ++ text).getLast? := by
  rw [List.getLast?_append, getLast?_or]

theorem headOr_head? (text after : List Char) :
    headOr text after.head? = (text ++ after).head? := by
  rw [List.head?_append, head?_or]

theorem exists_dropRightWhile (drop : Char → Bool) (text : List Char) :
    ∃ right, text = dropRightWhile drop text ++ right ∧ ∀ char ∈ right, drop char = true := by
  refine ⟨(text.reverse.takeWhile drop).reverse, ?_, ?_⟩
  · rw [dropRightWhile, ← List.reverse_append, List.takeWhile_append_dropWhile,
      List.reverse_reverse]
  · intro char member
    exact List.mem_takeWhile_imp (List.mem_reverse.mp member)

theorem exists_strip (text : List Char) :
    ∃ left right, text = left ++ strip text ++ right ∧ (∀ char ∈ left, isBlank char = true) ∧
      ∀ char ∈ right, isBlank char = true := by
  obtain ⟨right, whole, blank⟩ := exists_dropRightWhile isBlank (stripLeft text)
  refine ⟨text.takeWhile isBlank, right, ?_, fun char member => List.mem_takeWhile_imp member,
    blank⟩
  have parts : text.takeWhile isBlank ++ stripLeft text = text := List.takeWhile_append_dropWhile
  rw [List.append_assoc]
  exact (whole ▸ parts).symm

theorem getLast?_dropRightWhile (drop : Char → Bool) (text : List Char) :
    (dropRightWhile drop text).getLast?.all (fun char => !drop char) = true := by
  rw [dropRightWhile, List.getLast?_reverse]
  cases kept : (text.reverse.dropWhile drop).head? with
  | none => rfl
  | some char =>
      have stopped := List.head?_dropWhile_not drop text.reverse
      rw [kept] at stopped
      simpa using stopped

theorem getLast?_lineBody (line : List Char) :
    (lineBody line).getLast?.all (fun char => !isReturn char) = true :=
  getLast?_dropRightWhile isReturn line

theorem stripRight_isPrefix (text : List Char) : stripRight text <+: text := by
  obtain ⟨right, whole, _⟩ := exists_dropRightWhile isBlank text
  exact ⟨right, whole.symm⟩

theorem strip_isInfix (text : List Char) : strip text <:+: text := by
  obtain ⟨left, right, whole, _⟩ := exists_strip text
  exact ⟨left, right, whole.symm⟩

theorem not_isBlank_head_strip {text : List Char} {first : Char}
    (start : (strip text).head? = some first) : isBlank first = false := by
  have stripped := List.head?_dropWhile_not isBlank text
  obtain ⟨others, same⟩ := List.head?_eq_some_iff.mp start
  have kept : strip text <+: text.dropWhile isBlank := stripRight_isPrefix (stripLeft text)
  obtain ⟨rest, whole⟩ := kept
  rw [← whole, same] at stripped
  simpa using stripped

theorem not_isBlank_getLast_strip {text : List Char} {last : Char}
    (final : (strip text).getLast? = some last) : isBlank last = false := by
  have stripped := getLast?_dropRightWhile isBlank (stripLeft text)
  change (strip text).getLast?.all _ = true at stripped
  simpa [final] using stripped

theorem not_isBlank_getLast_stripRight {text : List Char} {last : Char}
    (final : (stripRight text).getLast? = some last) : isBlank last = false := by
  have stripped := getLast?_dropRightWhile isBlank text
  change (stripRight text).getLast?.all _ = true at stripped
  simpa [final] using stripped

theorem dropWhile_eq_self {drop : Char → Bool} {text : List Char}
    (kept : ∀ char, text.head? = some char → drop char = false) : text.dropWhile drop = text := by
  cases text with
  | nil => rfl
  | cons char text => rw [List.dropWhile_cons_of_neg (by simp [kept char rfl])]

theorem strip_between {left core right : List Char} (leftBlank : ∀ char ∈ left, isBlank char = true)
    (rightBlank : ∀ char ∈ right, isBlank char = true) (filled : core ≠ [])
    (first : ∀ char, core.head? = some char → isBlank char = false)
    (last : ∀ char, core.getLast? = some char → isBlank char = false) :
    strip (left ++ core ++ right) = core := by
  have stripped : stripLeft (left ++ core ++ right) = core ++ right := by
    rw [stripLeft, List.append_assoc, List.dropWhile_append_of_pos leftBlank, dropWhile_eq_self]
    intro char head
    obtain ⟨own, rest, rfl⟩ := List.exists_cons_of_ne_nil filled
    exact first char head
  rw [strip, stripped, stripRight, dropRightWhile, List.reverse_append,
    List.dropWhile_append_of_pos fun char member => rightBlank char (List.mem_reverse.mp member),
    dropWhile_eq_self, List.reverse_reverse]
  intro char head
  rw [List.head?_reverse] at head
  exact last char head

theorem strip_append_blank (text : List Char) {char : Char} (blank : isBlank char = true) :
    strip (text ++ [char]) = strip text := by
  rw [strip, strip, stripLeft, stripLeft, List.dropWhile_append]
  split
  next empty => rw [List.isEmpty_iff.mp empty, List.dropWhile_cons_of_pos blank, List.dropWhile_nil]
  next =>
    rw [stripRight, stripRight, dropRightWhile, dropRightWhile, List.reverse_concat,
      List.dropWhile_cons_of_pos blank]

theorem strip_append_blanks (text : List Char) {right : List Char}
    (blank : ∀ char ∈ right, isBlank char = true) : strip (text ++ right) = strip text := by
  induction right generalizing text with
  | nil => rw [List.append_nil]
  | cons char right ih =>
      have split : text ++ char :: right = (text ++ [char]) ++ right := by simp
      rw [split, ih _ fun other member => blank other (by simp [member]),
        strip_append_blank text (blank char (by simp))]

theorem mem_strip {text : List Char} {char : Char} (member : char ∈ text)
    (solid : isBlank char = false) : char ∈ strip text := by
  obtain ⟨left, right, whole, leftBlank, rightBlank⟩ := exists_strip text
  rw [whole] at member
  rcases List.mem_append.mp member with inFront | inRight
  · rcases List.mem_append.mp inFront with inLeft | inside
    · rw [leftBlank char inLeft] at solid
      exact absurd solid (by decide)
    · exact inside
  · rw [rightBlank char inRight] at solid
    exact absurd solid (by decide)

theorem stripRight_append_cons (text : List Char) {char : Char} (solid : isBlank char = false)
    (rest : List Char) : stripRight (text ++ char :: rest) = text ++ char :: stripRight rest := by
  have turned : (text ++ char :: rest).reverse = rest.reverse ++ char :: text.reverse := by simp
  have stopped : (char :: text.reverse).dropWhile isBlank = char :: text.reverse :=
    List.dropWhile_cons_of_neg (by simp [solid])
  rw [stripRight, stripRight, dropRightWhile, dropRightWhile, turned, List.dropWhile_append]
  split
  next empty => simp [stopped, List.isEmpty_iff.mp empty]
  next => simp

theorem isReturn_of_mem_lineReturn {line : List Char} {char : Char}
    (member : char ∈ lineReturn line) : isReturn char = true := by
  obtain ⟨right, whole, returns⟩ := exists_dropRightWhile isReturn line
  have parts := lineBody_append_lineReturn line
  rw [lineBody] at parts
  rw [List.append_cancel_left (parts.trans whole)] at member
  exact returns char member

@[simp] theorem strip_lineBody (line : List Char) : strip (lineBody line) = strip line := by
  rw [← strip_append_blanks (lineBody line) fun char member =>
    isBlank_of_isReturn (isReturn_of_mem_lineReturn member), lineBody_append_lineReturn]

end DollarMath.Text
