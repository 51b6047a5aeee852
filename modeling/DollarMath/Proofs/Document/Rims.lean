import DollarMath.Proofs.Document.DisplaySpans

/-!
The characters at the two ends of display math, dollars or blanks, which masked text never reads as.
-/

namespace DollarMath.DisplayMath

def IsRim (char : Char) : Prop :=
  char = '$' ∨ Text.isBlank char = true

instance : DecidablePred IsRim := fun char =>
  inferInstanceAs (Decidable (char = '$' ∨ Text.isBlank char = true))

structure IsRimmed (stretch : List Char) : Prop where
  head : ∃ char, stretch.head? = some char ∧ IsRim char
  last : ∃ char, stretch.getLast? = some char ∧ IsRim char

theorem IsRimmed.around {first last : List Char} (opens : IsRimmed first) (closes : IsRimmed last)
    (inside : List Char) : IsRimmed (first ++ inside ++ last) := by
  obtain ⟨opening, head, rim⟩ := opens.head
  obtain ⟨closing, final, rim'⟩ := closes.last
  obtain ⟨others, rfl⟩ := List.head?_eq_some_iff.mp head
  obtain ⟨init, rfl⟩ := List.getLast?_eq_some_iff.mp final
  refine ⟨⟨opening, rfl, rim⟩, ⟨closing, ?_, rim'⟩⟩
  rw [← List.append_assoc, List.getLast?_concat]

theorem isRimmed_of_isDelimiterLine {line : List Char} (delimiter : isDelimiterLine line = true) :
    IsRimmed line := by
  have stripped : Text.strip line = ['$', '$'] := by simpa [isDelimiterLine] using delimiter
  obtain ⟨left, right, whole, leftBlank, rightBlank⟩ := Text.exists_strip line
  rw [stripped] at whole
  subst whole
  constructor
  · cases left with
    | nil => exact ⟨'$', rfl, .inl rfl⟩
    | cons char left => exact ⟨char, rfl, .inr (leftBlank char (by simp))⟩
  · obtain rfl | ⟨init, char, rfl⟩ := List.eq_nil_or_concat' right
    · exact ⟨'$', by simp, .inl rfl⟩
    · refine ⟨char, ?_, .inr (rightBlank char (by simp))⟩
      rw [← List.append_assoc, List.getLast?_concat]

theorem IsOnLine.isRimmed {hit : List Char} (onLine : IsOnLine hit) : IsRimmed hit := by
  obtain ⟨body, rfl, _⟩ := onLine
  have ends : '$' :: '$' :: body ++ ['$', '$'] = ('$' :: '$' :: body ++ ['$']) ++ ['$'] := by simp
  exact ⟨⟨'$', rfl, .inl rfl⟩, ⟨'$', by rw [ends, List.getLast?_concat], .inl rfl⟩⟩

theorem exists_rimmed_from {lines : List (List Char)} {span : Span} {offset : Nat} :
    ∀ {above : List Char}, offset = above.length → span ∈ spansFrom offset lines →
      ∃ front stretch back, lines.flatten = front ++ (stretch ++ back) ∧
        span = ⟨(above ++ front).length, (above ++ front).length + stretch.length⟩ ∧
        IsRimmed stretch := by
  fun_induction spansFrom offset lines with
  | case1 => simp
  | case2 offset line rest inside last after found stop =>
      rename_i ih
      rintro above rfl member
      obtain ⟨opens, rfl, _, closes⟩ := block?_eq_some_iff.mp found
      rcases List.mem_cons.mp member with rfl | later
      · refine ⟨[], line ++ inside.flatten ++ last, after.flatten, by simp, ?_,
          (isRimmed_of_isDelimiterLine opens).around (isRimmed_of_isDelimiterLine closes) _⟩
        simp [stop, Nat.add_assoc]
      · obtain ⟨front, stretch, back, afterEq, spanEq, rimmed⟩ :=
          @ih (above ++ (line ++ inside.flatten ++ last)) (by simp [stop, Nat.add_assoc]) later
        refine ⟨line ++ inside.flatten ++ last ++ front, stretch, back, by simp [afterEq], ?_, rimmed⟩
        rw [spanEq, List.append_assoc above]
  | case3 offset line rest _ ih =>
      rintro above rfl member
      rcases List.mem_append.mp member with hit | later
      · obtain ⟨previous, front, taken, left, value, rfl, found, rfl⟩ :=
          keeps_onLine.takes.exists_of_mem_hitSpans hit
        exact ⟨front, taken, left ++ rest.flatten, by simp, rfl, (isOnLine_of_onLine found).isRimmed⟩
      · obtain ⟨front, stretch, back, restEq, spanEq, rimmed⟩ :=
          @ih (above ++ line) (by simp) later
        exact ⟨line ++ front, stretch, back, by simp [restEq], by rw [spanEq, List.append_assoc], rimmed⟩

theorem exists_rimmed {text : List Char} {span : Span} (member : span ∈ spans text) :
    ∃ front stretch back, text = front ++ (stretch ++ back) ∧
      span = ⟨front.length, front.length + stretch.length⟩ ∧ IsRimmed stretch := by
  obtain ⟨front, stretch, back, textEq, spanEq, rimmed⟩ := @exists_rimmed_from _ _ _ [] rfl member
  rw [Text.flatten_lines] at textEq
  exact ⟨front, stretch, back, textEq, by simpa using spanEq, rimmed⟩

def covers (found : List Span) (place : Nat) : Bool :=
  found.any (·.contains place)

theorem contains_iff {span : Span} {place : Nat} :
    span.contains place = true ↔ span.start ≤ place ∧ place < span.stop := by
  simp [Span.contains]

theorem isRim_of_opening {text : List Char} {place : Nat}
    (before : covers (spans text) place = false) (after : covers (spans text) (place + 1) = true) :
    ∃ char, text[place + 1]? = some char ∧ IsRim char := by
  obtain ⟨span, member, inside⟩ := List.any_eq_true.mp after
  have outside : span.contains place = false := by
    simpa using List.any_eq_false.mp before span member
  obtain ⟨front, stretch, back, rfl, rfl, rimmed⟩ := exists_rimmed member
  obtain ⟨char, head, rim⟩ := rimmed.head
  obtain ⟨others, rfl⟩ := List.head?_eq_some_iff.mp head
  rw [contains_iff] at inside
  have missed := mt contains_iff.mpr (by rw [outside]; simp)
  have start : place + 1 = front.length := by
    dsimp only at inside missed
    omega
  exact ⟨char, by simp [start], rim⟩

theorem isRim_of_closing {text : List Char} {place : Nat}
    (before : covers (spans text) place = true) (after : covers (spans text) (place + 1) = false) :
    ∃ char, text[place]? = some char ∧ IsRim char := by
  obtain ⟨span, member, inside⟩ := List.any_eq_true.mp before
  have outside : span.contains (place + 1) = false := by
    simpa using List.any_eq_false.mp after span member
  obtain ⟨front, stretch, back, rfl, rfl, rimmed⟩ := exists_rimmed member
  obtain ⟨char, last, rim⟩ := rimmed.last
  obtain ⟨init, rfl⟩ := List.getLast?_eq_some_iff.mp last
  rw [contains_iff] at inside
  have missed := mt contains_iff.mpr (by rw [outside]; simp)
  have stop : place = front.length + init.length := by
    simp only [List.length_append, List.length_cons, List.length_nil] at inside missed
    omega
  refine ⟨char, ?_, rim⟩
  rw [stop, List.getElem?_append_right (by omega)]
  simp

def mask (painted : Char × RegionKind) : Char :=
  if painted.2 = .outside ∨ Text.isReturn painted.1 then painted.1 else '\x00'

theorem masked_eq (regions : List Region) : masked regions = (Piece.paint regions).map mask := by
  induction regions with
  | nil => rfl
  | cons region regions ih =>
      rw [masked_cons, ih, Piece.paint_eq_append, List.map_append]
      congr 1
      simp only [masked, List.flatMap_cons, List.flatMap_nil, List.append_nil, Piece.paint_cons,
        Piece.paint_nil, List.map_map]
      split
      next free =>
        have kind : region.kind = .outside := by simpa [Piece.isOutside] using free
        simp [Function.comp_def, mask, kind]
      next frozen =>
        have kind : region.kind ≠ .outside := by simpa [Piece.isOutside] using frozen
        simp [Function.comp_def, mask, kind]

theorem mask_ne_dollar {painted : Char × RegionKind} (frozen : painted.2 ≠ .outside) :
    mask painted ≠ '$' := by
  unfold mask
  split
  next kept =>
    intro dollar
    rw [dollar] at kept
    exact absurd (kept.resolve_left frozen) (by decide)
  next => decide

theorem not_isRim_mask {painted : Char × RegionKind} (frozen : painted.2 ≠ .outside)
    (solid : Text.isReturn painted.1 = false) : ¬ IsRim (mask painted) := by
  rw [mask, if_neg (by simp [frozen, solid])]
  rintro (dollar | blank)
  · exact absurd dollar (by decide)
  · exact absurd blank (by decide)

end DollarMath.DisplayMath
