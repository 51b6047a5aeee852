import DollarMath.Proofs.Region.Passes

/-!
Splicing edits into a text. The edits are taken in the order of their starts, and of those that
overlap the first one is made. All text outside of the edits made is there once and stays outside.
-/

namespace DollarMath

namespace Edit

structure IsInside (text : List Char) (edit : Edit) : Prop where
  order : edit.span.start ≤ edit.span.stop
  bound : edit.span.stop ≤ text.length

/-- The same edits in the order of their starts, those with one start in the order given. -/
structure AreOrdered (edits ordered : List Edit) : Prop where
  perm : ordered.Perm edits
  order : ordered.Pairwise fun first second => first.span.start ≤ second.span.start
  stable : ∀ start, ordered.filter (·.span.start == start) = edits.filter (·.span.start == start)

def Follow (edits : List Edit) : Prop :=
  edits.IsChain fun first second => first.span.stop ≤ second.span.start

structure AreApart (edits : List Edit) : Prop where
  distinct : (edits.map fun edit => edit.span.start).Nodup
  clear : ∀ first ∈ edits, ∀ second ∈ edits, first.span.start < second.span.start →
    first.span.stop ≤ second.span.start

def lastStop (edits : List Edit) : Nat :=
  (edits.getLast?.map fun edit => edit.span.stop).getD 0

/-- One more edit is chosen unless it starts before the end of the last one chosen. -/
def keep (chosen : List Edit) (edit : Edit) : List Edit :=
  if edit.span.start < lastStop chosen then chosen else chosen ++ [edit]

def made (edits : List Edit) : List Edit :=
  (sorted edits).foldl keep []

/-- The text from an offset on, with edits made: what stands before an edit stays outside, and the
range of the edit gives way to its replacement. -/
inductive Spells : (offset : Nat) → List Edit → List Char → Painted → Prop
  | rest {offset text} : Spells offset [] text (Painted.outside text)
  | edit {offset gap taken text replacement edits painted} :
      Spells (offset + gap.length + taken.length) edits text painted →
      Spells offset
        (⟨⟨offset + gap.length, offset + gap.length + taken.length⟩, replacement⟩ :: edits)
        (gap ++ (taken ++ text)) (Painted.outside gap ++ (Piece.paint replacement ++ painted))

theorem startsLe_trans (first second third : Edit) :
    decide (first.span.start ≤ second.span.start) = true →
      decide (second.span.start ≤ third.span.start) = true →
        decide (first.span.start ≤ third.span.start) = true := by
  simp only [decide_eq_true_eq]
  omega

theorem startsLe_total (first second : Edit) :
    (decide (first.span.start ≤ second.span.start) ||
      decide (second.span.start ≤ first.span.start)) = true := by
  simp only [Bool.or_eq_true, decide_eq_true_eq]
  omega

theorem areOrdered_sorted (edits : List Edit) : AreOrdered edits (sorted edits) where
  perm := List.mergeSort_perm edits _
  order := (List.pairwise_mergeSort startsLe_trans startsLe_total edits).imp of_decide_eq_true
  stable start := by
    -- Edits with one start are in order already, so sorting keeps them as a sublist.
    have tied : (edits.filter (·.span.start == start)).Pairwise fun first second =>
        decide (first.span.start ≤ second.span.start) = true := by
      refine List.pairwise_of_forall_mem_list fun first isFirst second isSecond => ?_
      have firstEq := beq_iff_eq.mp (List.mem_filter.mp isFirst).2
      have secondEq := beq_iff_eq.mp (List.mem_filter.mp isSecond).2
      exact decide_eq_true (by omega)
    have kept : ((edits.filter (·.span.start == start)).filter (·.span.start == start)).Sublist
        ((sorted edits).filter (·.span.start == start)) :=
      (List.sublist_mergeSort startsLe_trans startsLe_total tied List.filter_sublist).filter _
    rw [List.filter_filter] at kept
    simp only [Bool.and_self] at kept
    exact (kept.eq_of_length ((List.mergeSort_perm edits _).filter _).length_eq.symm).symm

section Making

variable {text : List Char} {chosen edits : List Edit} {edit : Edit}

@[simp] theorem lastStop_concat (chosen : List Edit) (edit : Edit) :
    lastStop (chosen ++ [edit]) = edit.span.stop := by
  simp [lastStop]

theorem keep_of_lt (overlaps : edit.span.start < lastStop chosen) : keep chosen edit = chosen :=
  if_pos overlaps

theorem keep_of_le (later : lastStop chosen ≤ edit.span.start) :
    keep chosen edit = chosen ++ [edit] :=
  if_neg (Nat.not_lt.mpr later)

theorem lastStop_le_iff {start : Nat} :
    lastStop chosen ≤ start ↔ ∀ last ∈ chosen.getLast?, last.span.stop ≤ start := by
  rw [lastStop]
  cases chosen.getLast? <;> simp

theorem keep_sublist (chosen : List Edit) (edit : Edit) :
    (keep chosen edit).Sublist (chosen ++ [edit]) := by
  unfold keep
  split
  · exact List.sublist_append_left chosen [edit]
  · exact List.Sublist.refl _

theorem foldl_keep_sublist (chosen edits : List Edit) :
    (edits.foldl keep chosen).Sublist (chosen ++ edits) := by
  induction edits generalizing chosen with
  | nil => simp
  | cons edit edits ih =>
      have step := (keep_sublist chosen edit).append_right edits
      rw [List.append_assoc, List.singleton_append] at step
      exact (ih (keep chosen edit)).trans step

theorem Follow.keep (follow : Follow chosen) (edit : Edit) : Follow (keep chosen edit) := by
  rcases Nat.lt_or_ge edit.span.start (lastStop chosen) with overlaps | later
  · rwa [keep_of_lt overlaps]
  · rw [keep_of_le later]
    refine List.IsChain.append follow (List.isChain_singleton _) fun last isLast next isNext => ?_
    rw [List.head?_cons, Option.mem_some_iff] at isNext
    exact isNext ▸ lastStop_le_iff.mp later last isLast

theorem Follow.foldl_keep (follow : Follow chosen) (edits : List Edit) :
    Follow (edits.foldl Edit.keep chosen) := by
  induction edits generalizing chosen with
  | nil => exact follow
  | cons edit edits ih => exact ih (follow.keep edit)

theorem Follow.foldl_keep_eq (follow : Follow (chosen ++ edits)) :
    edits.foldl Edit.keep chosen = chosen ++ edits := by
  induction edits generalizing chosen with
  | nil => simp
  | cons edit edits ih =>
      have seam := (List.isChain_append.mp follow).2.2
      have later : lastStop chosen ≤ edit.span.start :=
        lastStop_le_iff.mpr fun last isLast => seam last isLast edit rfl
      rw [List.foldl_cons, keep_of_le later, ih (by simpa using follow)]
      simp

theorem Spells.of_drop {offset : Nat} {painted : Painted} (late : offset ≤ edit.span.start)
    (inside : edit.IsInside text)
    (later : Spells edit.span.stop edits (text.drop edit.span.stop) painted) :
    Spells offset (edit :: edits) (text.drop offset)
      (Painted.outside (Span.slice ⟨offset, edit.span.start⟩ text) ++
        (Piece.paint edit.replacement ++ painted)) := by
  obtain ⟨order, bound⟩ := inside
  have whole := Span.drop_eq_append text late order
  have startEq : offset + (Span.slice ⟨offset, edit.span.start⟩ text).length = edit.span.start := by
    simp only [Span.slice, List.length_drop, List.length_take]
    omega
  have stopEq : edit.span.start + (Span.slice edit.span text).length = edit.span.stop := by
    simp only [Span.slice, List.length_drop, List.length_take]
    omega
  have placed := @Spells.edit offset (Span.slice ⟨offset, edit.span.start⟩ text)
    (Span.slice edit.span text) (text.drop edit.span.stop) edit.replacement edits painted
  rw [startEq, stopEq, ← whole] at placed
  exact placed later

/-- Whatever edits have been chosen, the rest of the text is spelled with those chosen next. -/
theorem exists_spells_cut (inside : ∀ edit ∈ edits, edit.IsInside text) (chosen : List Edit) :
    ∃ more, edits.foldl keep chosen = chosen ++ more ∧
      Spells (lastStop chosen) more (text.drop (lastStop chosen))
        (Piece.paint (cut text (lastStop chosen) edits)) := by
  induction edits generalizing chosen with
  | nil =>
      refine ⟨[], by simp, ?_⟩
      rw [cut, Painted.paint_outside]
      exact .rest
  | cons edit edits ih =>
      obtain ⟨own, others⟩ := List.forall_mem_cons.mp inside
      rw [List.foldl_cons, cut]
      rcases Nat.lt_or_ge edit.span.start (lastStop chosen) with overlaps | later
      · rw [keep_of_lt overlaps, if_pos overlaps]
        exact ih others chosen
      · -- The text is spelled up to the end of this edit, which is the last one chosen now.
        rw [keep_of_le later, if_neg (Nat.not_lt.mpr later)]
        obtain ⟨more, moreEq, spelled⟩ := ih others (chosen ++ [edit])
        rw [lastStop_concat] at spelled
        refine ⟨edit :: more, by rw [moreEq]; simp, ?_⟩
        rw [Piece.paint_cons, Piece.paint_append]
        exact .of_drop later own spelled

end Making

section Apart

variable {edits other : List Edit}

theorem AreApart.pairwise_sorted (apart : AreApart edits) :
    (sorted edits).Pairwise fun first second => first.span.start < second.span.start := by
  have ordered := areOrdered_sorted edits
  have distinct : ((sorted edits).map fun edit => edit.span.start).Nodup :=
    (ordered.perm.map _).nodup_iff.mpr apart.distinct
  exact ordered.order.imp₂ (fun _ _ => Nat.lt_of_le_of_ne) (List.pairwise_map.mp distinct)

theorem AreApart.follow_sorted (apart : AreApart edits) : Follow (sorted edits) := by
  have perm := (areOrdered_sorted edits).perm
  refine (apart.pairwise_sorted.imp_of_mem fun isFirst isSecond starts => ?_).isChain
  exact apart.clear _ (perm.subset isFirst) _ (perm.subset isSecond) starts

theorem AreApart.of_perm (apart : AreApart edits) (perm : other.Perm edits) : AreApart other where
  distinct := (perm.map _).nodup_iff.mpr apart.distinct
  clear first isFirst second isSecond :=
    apart.clear first (perm.subset isFirst) second (perm.subset isSecond)

theorem AreApart.sorted_eq (apart : AreApart edits) (perm : other.Perm edits) :
    sorted other = sorted edits := by
  have same : (sorted other).Perm (sorted edits) :=
    (areOrdered_sorted other).perm.trans (perm.trans (areOrdered_sorted edits).perm.symm)
  refine List.Perm.eq_of_pairwise ?_ (apart.of_perm perm).pairwise_sorted apart.pairwise_sorted same
  exact fun _ _ _ _ before behind => absurd before (Nat.lt_asymm behind)

end Apart

/-- Edits of a text are made in the order of their starts, those with the same start in the order
given, and one that starts before the end of the last one made is passed over. The text is spelled
with the edits made in place of their ranges. Edits that lie apart are all made, in whatever order
they are given. -/
theorem splice_spells {text : List Char} {edits : List Edit}
    (inside : ∀ edit ∈ edits, edit.IsInside text) :
    AreOrdered edits (sorted edits) ∧ (made edits).Sublist (sorted edits) ∧ Follow (made edits) ∧
      Spells 0 (made edits) text (Piece.paint (splice text edits)) ∧
      (AreApart edits → made edits = sorted edits ∧
        ∀ other : List Edit, other.Perm edits → splice text other = splice text edits) := by
  have ordered := areOrdered_sorted edits
  refine ⟨ordered, foldl_keep_sublist [] _, Follow.foldl_keep .nil _, ?_, fun apart => ⟨?_, ?_⟩⟩
  · obtain ⟨chosen, chosenEq, spelled⟩ :=
      exists_spells_cut (fun edit member => inside edit (ordered.perm.subset member)) []
    have madeEq : made edits = chosen := chosenEq
    rw [madeEq]
    exact spelled
  · exact Follow.foldl_keep_eq apart.follow_sorted
  · intro other perm
    rw [splice, splice, apart.sorted_eq perm]

theorem splice_spells_overlap :
    let text := "abcdef".toList
    let first : Edit := ⟨⟨0, 2⟩, []⟩
    let passed : Edit := ⟨⟨1, 4⟩, []⟩
    let second : Edit := ⟨⟨3, 5⟩, [Region.dollars ['x']]⟩
    let tied : Edit := ⟨⟨3, 3⟩, [Region.outside ['n']]⟩
    (∀ edit ∈ [second, passed, tied, first], edit.IsInside text) ∧
      made [second, passed, tied, first] = [first, second] ∧
      Spells 0 [first, second] text (Piece.paint (splice text [second, passed, tied, first])) ∧
      AreApart [second, first] ∧ splice text [first, second] = splice text [second, first] := by
  intro text first passed second tied
  have inside : ∀ edit ∈ [second, passed, tied, first], edit.IsInside text := by
    simp only [List.forall_mem_cons, List.not_mem_nil, false_imp_iff, implies_true, and_true]
    refine ⟨⟨?_, ?_⟩, ⟨?_, ?_⟩, ⟨?_, ?_⟩, ⟨?_, ?_⟩⟩ <;> decide
  have order : sorted [second, passed, tied, first] = [first, passed, second, tied] := by
    simp [sorted, List.mergeSort, List.MergeSort.Internal.splitInTwo, first, passed, second, tied]
  have madeEq : made [second, passed, tied, first] = [first, second] := by
    rw [made, order]
    decide
  have apart : AreApart [second, first] := ⟨by decide, by decide⟩
  have both : [second, first] ⊆ [second, passed, tied, first] := by decide
  obtain ⟨-, -, -, spelled, -⟩ := splice_spells inside
  obtain ⟨-, -, -, -, free⟩ :=
    @splice_spells text [second, first] fun edit member => inside edit (both member)
  rw [madeEq] at spelled
  exact ⟨inside, madeEq, spelled, apart, (free apart).2 _ (.swap _ _ _)⟩

end Edit

end DollarMath
