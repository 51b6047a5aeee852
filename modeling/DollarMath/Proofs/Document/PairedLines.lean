import DollarMath.Proofs.Document.Rims

/-!
The delimiter lines of a text pair up in their order, and one is left over if their number is odd.
Display math covers those that are paired, and no other.
-/

namespace DollarMath.DisplayMath

/-- A delimiter line between other lines has one to pair up with: it is the second of a pair, or one
more lies below it. -/
def IsPaired (above below : List (List Char)) : Prop :=
  above.countP isDelimiterLine % 2 = 1 ∨ ∃ other ∈ below, isDelimiterLine other = true

instance (above below : List (List Char)) : Decidable (IsPaired above below) :=
  inferInstanceAs (Decidable (_ ∨ _))

theorem exists_last {lines : List (List Char)} (counted : 0 < lines.countP isDelimiterLine) :
    ∃ above line below, lines = above ++ line :: below ∧ isDelimiterLine line = true ∧
      below.countP isDelimiterLine = 0 := by
  induction lines with
  | nil => simp at counted
  | cons first lines ih =>
      by_cases later : 0 < lines.countP isDelimiterLine
      · obtain ⟨above, line, below, rfl, delimiter, uncounted⟩ := ih later
        exact ⟨first :: above, line, below, rfl, delimiter, uncounted⟩
      · refine ⟨[], first, lines, rfl, ?_, by omega⟩
        by_contra other
        rw [List.countP_cons_of_neg other] at counted
        exact later counted

/-- All delimiter lines of a text are paired just if they are even in number. -/
theorem forall_isPaired_iff {lines : List (List Char)} :
    (∀ above line below, lines = above ++ line :: below → isDelimiterLine line = true →
      IsPaired above below) ↔ lines.countP isDelimiterLine % 2 = 0 := by
  constructor
  · intro paired
    by_contra odd
    obtain ⟨above, line, below, rfl, delimiter, uncounted⟩ := @exists_last lines (by omega)
    rw [List.countP_append, List.countP_cons_of_pos delimiter, uncounted] at odd
    rcases paired above line below rfl delimiter with before | after
    · omega
    · exact absurd (List.countP_pos_iff.mpr after) (by omega)
  · rintro even above line below rfl delimiter
    rw [List.countP_append, List.countP_cons_of_pos delimiter] at even
    by_cases before : above.countP isDelimiterLine % 2 = 1
    · exact .inl before
    · exact .inr (List.countP_pos_iff.mp (by omega))

theorem mem_of_isDelimiterLine {line : List Char} (delimiter : isDelimiterLine line = true) :
    ∀ char ∈ line, char = '$' ∨ Text.isBlank char = true := by
  have stripped : Text.strip line = ['$', '$'] := by simpa [isDelimiterLine] using delimiter
  intro char member
  cases blank : Text.isBlank char with
  | true => exact .inr rfl
  | false =>
      have inside := Text.mem_strip member blank
      rw [stripped] at inside
      exact .inl (by simpa using inside)

theorem count_of_isDelimiterLine {line : List Char} (delimiter : isDelimiterLine line = true) :
    line.count '$' = 2 := by
  have stripped : Text.strip line = ['$', '$'] := by simpa [isDelimiterLine] using delimiter
  obtain ⟨left, right, whole, leftBlank, rightBlank⟩ := Text.exists_strip line
  have noDollars {blanks : List Char} (blank : ∀ char ∈ blanks, Text.isBlank char = true) :
      blanks.count '$' = 0 :=
    List.count_eq_zero.mpr fun member => absurd (blank '$' member) (by decide)
  rw [whole, stripped, List.count_append, List.count_append, noDollars leftBlank, noDollars rightBlank]
  rfl

/-- A delimiter line holds too few dollars for display math on one line. -/
theorem hitSpans_of_isDelimiterLine {line : List Char} (delimiter : isDelimiterLine line = true)
    (offset : Nat) (before : Option Char) :
    Text.hitSpans offset (Text.scan onLine before line) = [] := by
  have offsetEq : offset = (List.replicate offset ' ').length := List.length_replicate.symm
  rw [offsetEq]
  refine List.eq_nil_iff_forall_not_mem.mpr fun span member => ?_
  obtain ⟨previous, front, taken, left, value, rfl, found, _⟩ :=
    keeps_onLine.takes.exists_of_mem_hitSpans member
  obtain ⟨body, rfl, _⟩ := isOnLine_of_onLine found
  have count := count_of_isDelimiterLine delimiter
  simp only [List.cons_append, List.count_append, List.count_cons, List.count_nil, beq_self_eq_true,
    if_true] at count
  omega

theorem covers_append (first second : List Span) (place : Nat) :
    covers (first ++ second) place = (covers first place || covers second place) :=
  List.any_append

theorem covers_eq_false_of_lt {spans : List Span} {place : Nat}
    (later : ∀ span ∈ spans, place < span.start) : covers spans place = false := by
  refine List.any_eq_false.mpr fun span member => ?_
  rw [contains_iff]
  have bound := later span member
  omega

theorem covers_eq_false_of_le {spans : List Span} {place : Nat}
    (earlier : ∀ span ∈ spans, span.stop ≤ place) : covers spans place = false := by
  refine List.any_eq_false.mpr fun span member => ?_
  rw [contains_iff]
  have bound := earlier span member
  omega

section Block

variable {first last line : List Char} {rest inside after front back more : List (List Char)}
  (found : Text.block? closer? first rest = some (inside, last, after))

include found

theorem countP_inside : inside.countP isDelimiterLine = 0 :=
  List.countP_eq_zero.mpr fun line member => by
    simp [(block?_eq_some_iff.mp found).2.2.1 line member]

/-- A delimiter line below the first line of a block ends the block or lies below it. -/
theorem split_of_block? (delimiter : isDelimiterLine line = true)
    (split : rest = front ++ line :: back) :
    (front = inside ∧ line = last ∧ back = after) ∨
      ∃ more, front = inside ++ last :: more ∧ after = more ++ line :: back := by
  obtain ⟨_, rfl, unclosed, _⟩ := block?_eq_some_iff.mp found
  rcases append_eq_append_cons split.symm with ⟨more, frontEq, afterEq⟩ | ⟨more, insideEq, tailEq⟩
  · exact .inr ⟨more, frontEq, afterEq⟩
  · cases more with
    | nil =>
        obtain ⟨rfl, rfl⟩ := List.cons.inj tailEq
        exact .inl ⟨by rw [insideEq, List.append_nil], rfl, rfl⟩
    | cons other more =>
        obtain ⟨rfl, _⟩ := List.cons.inj tailEq
        rw [unclosed line (by simp [insideEq])] at delimiter
        exact absurd delimiter (by decide)

theorem isPaired_below_block :
    IsPaired (first :: (inside ++ last :: more)) back ↔ IsPaired more back := by
  obtain ⟨opens, _, _, closes⟩ := block?_eq_some_iff.mp found
  rw [IsPaired, IsPaired, List.countP_cons_of_pos opens, List.countP_append, countP_inside found,
    List.countP_cons_of_pos closes, Nat.zero_add, Nat.add_assoc, Nat.add_mod_right]

theorem isPaired_closing : IsPaired (first :: inside) after :=
  .inl (by rw [List.countP_cons_of_pos (block?_eq_some_iff.mp found).1, countP_inside found])

end Block

theorem isPaired_below_line {first : List Char} {front back : List (List Char)}
    (plain : isDelimiterLine first = false) : IsPaired (first :: front) back ↔ IsPaired front back := by
  rw [IsPaired, IsPaired, List.countP_cons_of_neg (by simp [plain])]

/-- Display math covers a delimiter line just if it is paired. -/
theorem covers_spansFrom_iff {offset : Nat} {lines : List (List Char)} {line : List Char}
    (delimiter : isDelimiterLine line = true) :
    ∀ {front back : List (List Char)} {place : Nat}, lines = front ++ line :: back →
      offset + front.flatten.length ≤ place → place < offset + front.flatten.length + line.length →
      (covers (spansFrom offset lines) place = true ↔ IsPaired front back) := by
  fun_induction spansFrom offset lines with
  | case1 =>
      intro front back place split
      simp at split
  | case2 offset first rest inside last after found stop =>
      rename_i ih
      intro front back place split lower upper
      have contains : (⟨offset, stop⟩ : Span).contains place = true ↔ place < stop := by
        rw [contains_iff]
        exact ⟨And.right, fun below => ⟨Nat.le_trans (Nat.le_add_right _ _) lower, below⟩⟩
      rw [covers, List.any_cons, Bool.or_eq_true, contains]
      cases front with
      | nil =>
          obtain ⟨rfl, rfl⟩ := List.cons.inj split
          rw [List.flatten_nil, List.length_nil, Nat.add_zero] at upper
          obtain ⟨_, restEq, _, closes⟩ := block?_eq_some_iff.mp found
          exact iff_of_true (.inl (by omega)) (.inr ⟨last, by simp [restEq], closes⟩)
      | cons opening front =>
          obtain ⟨rfl, splitEq⟩ := List.cons.inj split
          rw [List.flatten_cons, List.length_append] at lower upper
          rcases split_of_block? found delimiter splitEq with ⟨rfl, rfl, rfl⟩ | ⟨more, rfl, afterEq⟩
          · exact iff_of_true (.inl (by omega)) (isPaired_closing found)
          · simp only [List.flatten_append, List.flatten_cons, List.length_append] at lower upper
            rw [isPaired_below_block found, ← @ih more back place afterEq (by omega) (by omega)]
            exact or_iff_right (by omega)
  | case3 offset first rest noBlock ih =>
      intro front back place split lower upper
      rw [covers_append, Bool.or_eq_true]
      cases front with
      | nil =>
          obtain ⟨rfl, rfl⟩ := List.cons.inj split
          rw [List.flatten_nil, List.length_nil, Nat.add_zero] at upper
          have unclosed := block?_eq_none_iff.mp noBlock delimiter
          have later : covers (spansFrom (offset + first.length) rest) place = false :=
            covers_eq_false_of_lt fun span member =>
              Nat.lt_of_lt_of_le upper (le_start_of_mem_spansFrom member)
          rw [hitSpans_of_isDelimiterLine delimiter, later]
          refine iff_of_false (by simp [covers]) ?_
          rintro (odd | ⟨other, member, closes⟩)
          · simp at odd
          · simp [unclosed other member] at closes
      | cons opening front =>
          obtain ⟨rfl, rfl⟩ := List.cons.inj split
          rw [List.flatten_cons, List.length_append] at lower upper
          have plain : isDelimiterLine first = false := by
            by_contra opens
            have unclosed := block?_eq_none_iff.mp noBlock (by simpa using opens) line (by simp)
            exact absurd delimiter (by simp [unclosed])
          have hits : covers (Text.hitSpans offset (Text.scan onLine none first)) place = false :=
            covers_eq_false_of_le fun span member => by
              have bound := ((keeps_onLine.takes.lieApart_hitSpans offset none first).within span
                member).2.2
              omega
          rw [hits, isPaired_below_line plain, ← @ih front back place rfl (by omega) (by omega)]
          simp

end DollarMath.DisplayMath
