import DollarMath.Proofs.Conversion.PlainReading

/-!
Labels of list items in parentheses, such as `(3)`, `(b)` and `(iv)` at the start of a line. They
come through the conversion of parentheses: a label is no mathematics where a line starts, and a
group that reaches over the start of a line is left alone with everything in it.
-/

namespace DollarMath.PlainBrackets

def romanLabels : List (List Char) :=
  ["ii", "iii", "iv", "vi", "vii", "viii", "ix", "xi", "xii"].map String.toList

/-- A number, a single letter or a small Roman numeral of more than one letter. -/
inductive IsItemLabel : List Char → Prop
  | number {digits} : digits ≠ [] → (∀ char ∈ digits, char.isDigit = true) → IsItemLabel digits
  | letter {char} : char.isAlpha = true → IsItemLabel [char]
  | roman {numeral} : numeral.map Char.toLower ∈ romanLabels → IsItemLabel numeral

theorem sign_of_romanLabels : ∀ word ∈ romanLabels, ∀ char ∈ word,
    char = 'i' ∨ char = 'v' ∨ char = 'x' := by
  simp [romanLabels]

theorem foldCase_of_toLower {char : Char}
    (lower : char.toLower = 'i' ∨ char.toLower = 'v' ∨ char.toLower = 'x') :
    Formula.foldCase char = char.toLower := by
  have other {code : Nat} (differ : ¬((Char.ofNat code).toLower = 'i' ∨
      (Char.ofNat code).toLower = 'v' ∨ (Char.ofNat code).toLower = 'x')) : char.toNat ≠ code := by
    rintro rfl
    rw [Char.ofNat_toNat] at differ
    exact differ lower
  simp [Formula.foldCase, @other 0x130 (by decide), @other 0x131 (by decide),
    @other 0x17F (by decide), @other 0x212A (by decide)]

theorem isDigitMarker_of_digits {digits : List Char} (filled : digits ≠ [])
    (all : ∀ char ∈ digits, char.isDigit = true) : Formula.isDigitMarker digits = true := by
  have decimal : ∀ char ∈ digits, Text.isDecimal char = true := by
    intro char member
    have digit := all char member
    have bounds := Text.toNat_of_isAlphanum (show char.isAlphanum = true by simp [Char.isAlphanum, digit])
    have narrow : char.toNat < 128 := by omega
    rw [Text.isDecimal, if_pos narrow, digit]
  have rest : digits.dropWhile Text.isDecimal = [] := List.dropWhile_eq_nil_iff.mpr decimal
  have positive := List.length_pos_iff.mpr filled
  simp [Formula.isDigitMarker, rest, positive, Formula.endsMarker, Formula.isLineRest]

theorem isRomanMarker_of_mem {numeral : List Char}
    (lower : numeral.map Char.toLower ∈ romanLabels) : Formula.isRomanMarker numeral = true := by
  have folded : numeral.map Formula.foldCase = numeral.map Char.toLower :=
    List.map_congr_left fun char member =>
      foldCase_of_toLower (sign_of_romanLabels _ lower _ (List.mem_map_of_mem member))
  have length : (numeral.map Char.toLower).length = numeral.length := List.length_map ..
  rw [Formula.isRomanMarker, List.any_eq_true]
  refine ⟨numeral.map Char.toLower, lower, ?_⟩
  rw [Formula.afterWordFolded?, length, List.take_length, folded, if_pos (beq_self_eq_true _),
    List.drop_length]
  rfl

theorem isMathInParens_of_label {candidate : Formula.Candidate}
    (isLabel : IsItemLabel candidate.inner) (starts : candidate.startsLine = true) :
    candidate.isMathInParens = false := by
  generalize innerEq : candidate.inner = inner at isLabel
  unfold Formula.Candidate.isMathInParens
  rw [innerEq]
  cases isLabel with
  | number filled all => simp [isDigitMarker_of_digits filled all]
  | letter alpha => simp [Formula.isSingleLetter, alpha, Formula.isLineRest, starts]
  | roman lower => simp [isRomanMarker_of_mem lower]

/-- Where only blanks stand before a place on its line, so they do in the window before it. -/
theorem startsLine_of_blank {start lead : List Char} {candidate : Formula.Candidate}
    (starts : start = [] ∨ start.getLast? = some '\n') (blank : Text.allBlank lead = true)
    (beforeEq : candidate.before = (start ++ lead).rtake 60) : candidate.startsLine = true := by
  have ofLead : ∀ size, ∀ char ∈ ((lead.reverse ++ start.reverse).take size).takeWhile (· != '\n'),
      char ∈ lead.reverse := by
    generalize lead.reverse = turned
    induction turned with
    | nil =>
        intro size char member
        rcases starts with rfl | feed
        · simp at member
        · obtain ⟨init, rfl⟩ := List.getLast?_eq_some_iff.mp feed
          cases size <;> simp at member
    | cons first turned ih =>
        intro size char member
        cases size with
        | zero => simp at member
        | succ size =>
            rw [List.cons_append, List.take_succ_cons, List.takeWhile_cons] at member
            split at member
            · rcases List.mem_cons.mp member with rfl | later
              · simp
              · exact List.mem_cons_of_mem _ (ih size char later)
            · simp at member
  rw [Formula.Candidate.startsLine, beforeEq, List.rtake_eq_reverse_take_reverse,
    List.reverse_reverse, List.reverse_append, Text.allBlank, List.all_eq_true]
  intro char member
  exact List.all_eq_true.mp blank char (List.mem_reverse.mp (ofLead 60 char member))

/-- The group that a bracket before a plain text and a closing bracket opens holds just this text. -/
theorem eq_of_encloses {opening closing : Char} {label inside rest behind : List Char}
    (bare : closing ≠ '\\') (differ : closing ≠ opening)
    (plain : ∀ char ∈ label, char ≠ '\\' ∧ char ≠ opening ∧ char ≠ closing)
    (encloses : Text.Encloses opening closing inside)
    (same : inside ++ closing :: behind = label ++ closing :: rest) : inside = label := by
  obtain ⟨_, _, split, length, alone⟩ := Text.closingOffset?_eq_some encloses
  obtain ⟨rfl, -⟩ := List.append_inj split length.symm
  have own := alone behind
  rw [same, Text.closingOffset?_append plain, Text.closingOffset?_closing bare differ,
    Option.map_some, Option.some.injEq, Nat.zero_add] at own
  exact (List.append_inj same own.symm).1

theorem isAlphanum_of_toLower {char : Char} (lower : char.toLower.isAlphanum = true) :
    char.isAlphanum = true := by
  by_cases upper : char.isUpper = true
  · have alpha : (char.isUpper || char.isLower) = true := by rw [upper, Bool.true_or]
    exact Bool.or_eq_true_iff.mpr (.inl alpha)
  · have same : char.toLower = char := dif_neg fun bounds => upper (decide_eq_true bounds)
    rwa [same] at lower

theorem isAlphanum_of_label {label : List Char} (isLabel : IsItemLabel label) :
    ∀ char ∈ label, char.isAlphanum = true := by
  intro char member
  cases isLabel with
  | number _ all => simp [Char.isAlphanum, all char member]
  | letter alpha =>
      rw [List.mem_singleton.mp member]
      simp [Char.isAlphanum, alpha]
  | roman lower =>
      have sign := sign_of_romanLabels _ lower _ (List.mem_map_of_mem member)
      refine isAlphanum_of_toLower ?_
      rcases sign with same | same | same <;> rw [same] <;> rfl

section Apart

variable {before start lead label rest pre inside post : List Char}

/-- A group of one line that starts before a label ends before it: blanks lie between the start of
the line and the label, and a line feed lies before that. -/
theorem ends_before_label
    (document : pre ++ ('(' :: inside ++ ')' :: post) = (start ++ lead) ++ rest)
    (starts : start = [] ∨ start.getLast? = some '\n') (blank : Text.allBlank lead = true)
    (onLine : '\n' ∉ inside) (early : pre.length < (start ++ lead).length) :
    pre.length + (inside.length + 2) ≤ (start ++ lead).length := by
  have opens : (pre ++ ('(' :: inside ++ ')' :: post))[pre.length]? = some '(' := by simp
  by_contra touched
  rw [List.length_append] at early touched
  by_cases inLead : start.length ≤ pre.length
  · rw [document, List.getElem?_append_left (by rw [List.length_append]; exact early),
      List.getElem?_append_right inLead] at opens
    exact absurd (List.all_eq_true.mp blank _ (List.mem_of_getElem? opens)) (by decide)
  · rcases starts with rfl | feed
    · simp at inLead
    obtain ⟨init, rfl⟩ := List.getLast?_eq_some_iff.mp feed
    rw [List.length_append, List.length_singleton] at inLead touched
    have feeds : (pre ++ ('(' :: inside ++ ')' :: post))[init.length]? = some '\n' := by
      rw [document]
      simp
    have apart : pre.length ≠ init.length := by
      intro same
      rw [same, feeds] at opens
      exact absurd opens (by decide)
    obtain ⟨place, placeEq⟩ := Nat.exists_eq_add_of_lt (show pre.length < init.length by omega)
    rw [placeEq, Nat.add_assoc, List.getElem?_append_right (Nat.le_add_right ..),
      Nat.add_sub_cancel_left, List.cons_append, List.getElem?_cons_succ,
      List.getElem?_append_left (by omega)] at feeds
    exact onLine (List.mem_of_getElem? feeds)

theorem starts_after_label
    (document : pre ++ ('(' :: inside ++ ')' :: post) = before ++ ('(' :: label ++ ')' :: rest))
    (isLabel : IsItemLabel label) (late : before.length < pre.length) :
    before.length + (label.length + 2) ≤ pre.length := by
  have opens : (pre ++ ('(' :: inside ++ ')' :: post))[pre.length]? = some '(' := by simp
  by_contra touched
  obtain ⟨place, placeEq⟩ := Nat.exists_eq_add_of_lt late
  rw [document, placeEq, Nat.add_assoc, List.getElem?_append_right (Nat.le_add_right ..),
    Nat.add_sub_cancel_left, List.cons_append, List.getElem?_cons_succ] at opens
  by_cases inLabel : place < label.length
  · rw [List.getElem?_append_left inLabel] at opens
    exact absurd (isAlphanum_of_label isLabel _ (List.mem_of_getElem? opens)) (by decide)
  · have last : place = label.length := by omega
    rw [last] at opens
    simp at opens

theorem apart_of_label
    (document : pre ++ ('(' :: inside ++ ')' :: post) = before ++ ('(' :: label ++ ')' :: rest))
    (line : before = start ++ lead) (starts : start = [] ∨ start.getLast? = some '\n')
    (blank : Text.allBlank lead = true) (isLabel : IsItemLabel label)
    (encloses : Text.Encloses '(' ')' inside) (onLine : '\n' ∉ inside)
    (other : pre = before → inside ≠ label) :
    pre.length + (inside.length + 2) ≤ before.length ∨
      before.length + (label.length + 2) ≤ pre.length := by
  rcases Nat.lt_trichotomy pre.length before.length with early | same | late
  · rw [line] at early document ⊢
    exact .inl (ends_before_label document starts blank onLine early)
  · obtain ⟨rfl, tail⟩ := List.append_inj document same
    refine absurd (eq_of_encloses (by decide) (by decide) (fun char member => ?_) encloses
      (List.cons.inj tail).2) (other rfl)
    have alphanumeric := isAlphanum_of_label isLabel char member
    refine ⟨?_, ?_, ?_⟩
    all_goals
      rintro rfl
      exact absurd alphanumeric (by decide)
  · exact .inr (starts_after_label document isLabel late)

end Apart

theorem strip_label {label : List Char} (isLabel : IsItemLabel label) :
    Text.strip label = label := by
  have solid : ∀ char ∈ label, Text.isBlank char = false :=
    fun char member => Text.not_isBlank_of_isAlphanum (isAlphanum_of_label isLabel char member)
  have filled : label ≠ [] := by
    cases isLabel with
    | number filled _ => exact filled
    | letter _ => simp
    | roman lower =>
        rintro rfl
        exact absurd lower (by decide +kernel)
  have stripped := @Text.strip_between [] label [] (by simp) (by simp) filled
    (fun char head => solid char (List.mem_of_head? head))
    fun char last => solid char (List.mem_of_getLast? last)
  simpa using stripped

theorem encloses_of_mem_groups {opening closing : Char} {text front inside back : List Char}
    (textEq : text = front ++ (opening :: inside ++ [closing]) ++ back)
    (member : (front.length, front.length + 1 + inside.length) ∈ Text.groups opening closing text) :
    Text.Encloses opening closing inside := by
  obtain ⟨other, within, behind, split, placeEq, encloses⟩ := groups_split member
  rw [Prod.mk.injEq] at placeEq
  rw [textEq, List.append_assoc front, List.append_assoc other] at split
  obtain ⟨-, tail⟩ := List.append_inj split placeEq.1
  rw [List.cons_append, List.cons_append, List.cons_append, List.cons_append,
    List.append_assoc inside, List.append_assoc within] at tail
  obtain ⟨rfl, -⟩ := List.append_inj (List.cons.inj tail).2 (by omega)
  exact encloses

theorem apart_of_isRead {isHeld : List Char → Bool}
    {pre text post before start lead label rest : List Char} {place : Place}
    (read : IsRead parens isHeld pre text post place)
    (document : pre ++ (text ++ post) = before ++ ('(' :: label ++ ')' :: rest))
    (line : before = start ++ lead) (starts : start = [] ∨ start.getLast? = some '\n')
    (blank : Text.allBlank lead = true) (isLabel : IsItemLabel label) :
    place.text ≠ [] ∧ (place.before.length + place.text.length ≤ before.length ∨
      before.length + (label.length + 2) ≤ place.before.length) := by
  cases read with
  | @intro gap inside behind textEq inGroups filled onLine noDollar notHeld accepted =>
      have pair : (pre ++ gap) ++ ('(' :: inside ++ ')' :: (behind ++ post)) =
          before ++ ('(' :: label ++ ')' :: rest) := by
        rw [← document, textEq]
        simp [parens]
      have other : pre ++ gap = before → inside ≠ label := by
        rintro atLabel rfl
        have refused := @isMathInParens_of_label ⟨(pre ++ gap).rtake 60, inside, Text.strip inside,
            (behind ++ post).take 60⟩ (by rwa [strip_label isLabel])
          (startsLine_of_blank starts blank (by rw [← line, ← atLabel]))
        exact absurd (accepted.symm.trans refused) (by decide)
      have apart := apart_of_label pair line starts blank isLabel
        (encloses_of_mem_groups textEq inGroups) onLine other
      exact ⟨by simp, by simpa [parens] using apart⟩

structure IsConversion (style : Style) (regions : List Region) (parts : List Part) : Prop where
  sources : Part.sources parts = Piece.paint regions
  results : Part.results parts = Piece.paint (convert style regions)
  places : ∀ place, place ∈ Part.places [] parts [] ↔
    ∃ region above below, regions = above ++ region :: below ∧ region.isOutside = true ∧
      IsRead style (isOnStrayLine regions) (Piece.join above) region.text (Piece.join below) place

theorem exists_isConversion (style : Style) (regions : List Region) :
    ∃ parts, IsConversion style regions parts := by
  obtain ⟨parts, sourcesEq, resultsEq, placed⟩ :=
    exists_parts_convertFrom style (holdsBack_strayDollars regions)
  refine ⟨parts, sourcesEq, ?_, placed⟩
  rw [convert, Piece.paint_fuse]
  exact resultsEq

/-- A label in parentheses with only blanks before it on its line is kept by the conversion of
parentheses: no text that is replaced has a character in common with it. -/
theorem itemLabel_kept {above below : List Region} {region : Region}
    {front label back start lead : List Char} (free : region.isOutside = true)
    (place : region.text = front ++ ('(' :: label ++ [')']) ++ back)
    (line : Piece.join above ++ front = start ++ lead)
    (starts : start = [] ∨ start.getLast? = some '\n') (blank : Text.allBlank lead = true)
    (isLabel : IsItemLabel label) :
    ∃ left right,
      IsConversion parens (above ++ region :: below)
        (left ++ (Part.keep (Painted.outside ('(' :: label ++ [')'])) ++ right)) ∧
      Part.sources left = Piece.paint above ++ Painted.outside front := by
  obtain ⟨parts, conversion⟩ := exists_isConversion parens (above ++ region :: below)
  have whole : Part.sources parts = (Piece.paint above ++ Painted.outside front) ++
      (Painted.outside ('(' :: label ++ [')']) ++ (Painted.outside back ++ Piece.paint below)) := by
    rw [conversion.sources, Piece.paint_append, Piece.paint_eq_append,
      Painted.paint_of_isOutside free, place]
    simp
  have size : (Piece.paint above ++ Painted.outside front).length =
      (Piece.join above ++ front).length := by
    rw [← Painted.text_paint, Painted.text]
    simp [Painted.outside]
  have clear : ∀ found ∈ Part.places [] parts [], found.text ≠ [] ∧
      (found.before.length + found.text.length ≤
          (Piece.paint above ++ Painted.outside front).length ∨
        (Piece.paint above ++ Painted.outside front).length +
          (Painted.outside ('(' :: label ++ [')'])).length ≤ found.before.length) := by
    intro found member
    obtain ⟨owner, prior, later, split, _, read⟩ := (conversion.places found).mp member
    have document : Piece.join prior ++ (owner.text ++ Piece.join later) =
        (Piece.join above ++ front) ++ ('(' :: label ++ ')' :: (back ++ Piece.join below)) := by
      have joined := congrArg Piece.join split
      simpa [place] using joined.symm
    have apart := apart_of_isRead read document line starts blank isLabel
    rw [size]
    simpa [Painted.outside] using apart
  obtain ⟨left, right, rfl, sourcesEq⟩ := Part.exists_keep_of_clear whole clear
  exact ⟨left, right, conversion, sourcesEq⟩

theorem itemLabel_kept_roman :
    ∃ left right,
      IsConversion parens [Region.outside "(x\n  (iv) a=b)".toList]
        (left ++ (Part.keep (Painted.outside ('(' :: "iv".toList ++ [')'])) ++ right)) ∧
      Part.sources left = Painted.outside "(x\n  ".toList :=
  @itemLabel_kept [] [] (Region.outside "(x\n  (iv) a=b)".toList) "(x\n  ".toList "iv".toList
    " a=b)".toList "(x\n".toList "  ".toList rfl (by decide +kernel) (by decide +kernel)
    (Or.inr (by decide +kernel)) (by decide +kernel) (.roman (by decide +kernel))

end DollarMath.PlainBrackets
