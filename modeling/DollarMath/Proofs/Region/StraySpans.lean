import DollarMath.Proofs.Region.LineNumbers

/-!
What is held back in the regions of a document, seen from the document: a character outside lies in
a span held back exactly if its line holds a stray dollar.
-/

namespace DollarMath

namespace Line

theorem mem_group_iff {all : List Fragment} {fragment : Fragment} {number : Nat} :
    (∃ line, (group all)[number]? = some line ∧ fragment ∈ line.fragments) ↔
      ∃ front back, all = front ++ fragment :: back ∧
        front.countP Fragment.endsLine = number := by
  induction all generalizing number with
  | nil => simp [group]
  | cons first rest ih =>
      rw [exists_split_cons_iff, group]
      simp only [List.countP_nil, List.countP_cons]
      by_cases ends : first.endsLine = true
      · rw [if_pos ends, if_pos ends]
        cases number with
        | zero => simp
        | succ number => simp [ih]
      · rw [if_neg ends, if_neg ends]
        simp only [Nat.add_zero]
        rw [← ih]
        cases grouped : group rest with
        | nil =>
            cases number with
            | zero => simp [consFragment]
            | succ number => simp [consFragment]
        | cons next lines =>
            cases number with
            | zero => simp [consFragment]
            | succ number => simp [consFragment]

end Line

theorem countP_endsLine {index : Nat} {regions : List Region} {front back : List Fragment}
    (split : Fragment.ofRegions index regions = front ++ back) :
    front.countP Fragment.endsLine = (front.flatMap Fragment.text).count '\n' := by
  have rows : ∀ fragment ∈ front, Text.IsRow fragment.text := fun fragment member =>
    @Fragment.isRow_of_ofRegions index regions fragment (by simp [split, member])
  clear split
  induction front with
  | nil => rfl
  | cons fragment front ih =>
      rw [List.countP_cons, List.flatMap_cons, List.count_append,
        ih fun other member => rows other (by simp [member]), (rows fragment (by simp)).count_feed]
      simp only [Fragment.endsLine, beq_iff_eq]
      omega

theorem mem_strayFragments_iff {regions : List Region} {fragment : Fragment} :
    fragment ∈ strayFragments regions ↔ fragment.kind = .outside ∧
      ∃ front back, Fragment.ofRegions 0 regions = front ++ fragment :: back ∧
        hasStrayAt regions ((front.flatMap Fragment.text).count '\n') = true := by
  have onLine : fragment ∈ strayFragments regions ↔ fragment.kind = .outside ∧
      ∃ number, hasStrayAt regions number = true ∧
        ∃ line, (Line.ofRegions regions)[number]? = some line ∧ fragment ∈ line.fragments := by
    simp only [strayFragments, List.mem_flatMap, List.mem_filter, Line.looseFragments, beq_iff_eq]
    constructor
    · rintro ⟨line, ⟨inLines, stray⟩, inLine, loose⟩
      obtain ⟨number, found⟩ := List.mem_iff_getElem?.mp inLines
      exact ⟨loose, number, by simp [hasStrayAt, found, stray], line, found, inLine⟩
    · rintro ⟨loose, number, stray, line, found, inLine⟩
      rw [hasStrayAt, found, Option.any_some] at stray
      exact ⟨line, ⟨List.mem_of_getElem? found, stray⟩, inLine, loose⟩
  rw [onLine]
  refine and_congr_right fun _ => ⟨?_, ?_⟩
  · rintro ⟨number, stray, placed⟩
    obtain ⟨front, back, whole, rfl⟩ := Line.mem_group_iff.mp placed
    exact ⟨front, back, whole, by rwa [← countP_endsLine whole]⟩
  · rintro ⟨front, back, whole, stray⟩
    refine ⟨_, stray, Line.mem_group_iff.mpr ⟨front, back, whole, countP_endsLine whole⟩⟩

/-- A character outside is held back exactly if its line holds a stray dollar. -/
theorem strayDollars_contains {before after : List Region} {region : Region}
    (free : region.isOutside = true) {front back : List Char} {char : Char}
    (place : region.text = front ++ char :: back) :
    (((strayDollars (before ++ region :: after)).drop before.length).headD []).any
        (·.contains front.length) =
      hasStrayAt (before ++ region :: after) ((Piece.join before ++ front).count '\n') := by
  generalize regionsEq : before ++ region :: after = regions
  have spansEq : ((strayDollars regions).drop before.length).headD [] =
      ((strayFragments regions).filter (·.index == before.length)).map Fragment.span := by
    have bound : before.length < regions.length := by simp [← regionsEq]
    rw [List.headD_eq_head?_getD, List.head?_drop, getElem?_strayDollars bound, Option.getD_some]
  rw [spansEq, Bool.eq_iff_iff]
  simp only [List.any_eq_true, List.mem_map, List.mem_filter, mem_strayFragments_iff, beq_iff_eq]
  constructor
  · rintro ⟨_, ⟨fragment, ⟨⟨_, above, below, whole, stray⟩, indexEq⟩, rfl⟩, contained⟩
    obtain ⟨before', left, region', right, after', regionsEq', indexEq', lies⟩ :=
      Fragment.ofRegions_split whole
    obtain ⟨rfl, same⟩ := List.append_inj (regionsEq.trans regionsEq') (by omega)
    obtain ⟨rfl, _⟩ := List.cons.inj same
    have textEq := lies.textEq
    simp only [lies.spanEq, Span.contains, Bool.and_eq_true, decide_eq_true_eq] at contained
    rw [place, List.append_assoc] at textEq
    rcases List.append_eq_append_iff.mp textEq with ⟨gap, leftEq, _⟩ | ⟨gap, rfl, rest⟩
    · have length := congrArg List.length leftEq
      rw [List.length_append] at length
      have isNil : gap = [] := List.length_eq_zero_iff.mp (by omega)
      rw [isNil, List.append_nil] at leftEq
      rw [← leftEq, ← lies.frontEq]
      exact stray
    · have short : gap.length < fragment.text.length := by
        rw [List.length_append] at contained
        omega
      rcases append_eq_append_cons rest with ⟨tail, own, _⟩ | ⟨_, gapEq, _⟩
      · have row := @Fragment.isRow_of_ofRegions 0 regions fragment (by simp [whole])
        rw [own] at row
        rw [← List.append_assoc, List.count_append,
          List.count_eq_zero_of_not_mem row.not_mem_front, Nat.add_zero, ← lies.frontEq]
        exact stray
      · rw [gapEq, List.length_append] at short
        omega
  · intro stray
    have own : (Fragment.ofRegion before.length region).flatMap Fragment.text =
        front ++ char :: back := by
      rw [Fragment.flatMap_text_ofRegion, place]
    obtain ⟨above, fragment, below, left, right, split, textEq, rfl⟩ := exists_part_of_flatMap own
    obtain ⟨lines, _, _, indexEq, kindEq, spanEq, aboveEq, _⟩ := Fragment.ofLines_split split
    have whole : Fragment.ofRegions 0 regions = (Fragment.ofRegions 0 before ++ above) ++
        fragment :: (below ++ Fragment.ofRegions (before.length + 1) after) := by
      rw [← regionsEq, Fragment.ofRegions_append, Fragment.ofRegions, Nat.zero_add, split]
      simp
    have row := @Fragment.isRow_of_ofRegions 0 regions fragment (by simp [whole])
    rw [textEq] at row
    have count : ((Fragment.ofRegions 0 before ++ above).flatMap Fragment.text).count '\n' =
        (Piece.join before ++ (above.flatMap Fragment.text ++ left)).count '\n' := by
      rw [List.flatMap_append, Fragment.flatMap_text_ofRegions, ← List.append_assoc,
        List.count_append, List.count_append, List.count_append,
        List.count_eq_zero_of_not_mem row.not_mem_front, Nat.add_zero]
    refine ⟨fragment.span, ⟨fragment, ⟨⟨?_, _, _, whole, count ▸ stray⟩, indexEq⟩, rfl⟩, ?_⟩
    · rw [kindEq]
      exact Piece.isOutside_iff.mp free
    · simp only [spanEq, Span.contains, Bool.and_eq_true, decide_eq_true_eq, aboveEq, textEq,
        List.length_append, List.length_cons]
      omega

end DollarMath
