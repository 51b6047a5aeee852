import DollarMath.Proofs.Region.LineNumbers

/-!
Edits that each replace the start of a fragment. However the fragments of a document lie in its
regions, editing the regions gives what changing the fragments one by one gives.
-/

namespace DollarMath

theorem paint_cut_from {text : List Char} {edits : List Edit} {offset next : Nat}
    (order : offset ≤ next) (later : ∀ edit ∈ edits, next ≤ edit.span.start) :
    Piece.paint (Edit.cut text offset edits) =
      Painted.outside (Span.slice ⟨offset, next⟩ text) ++ Piece.paint (Edit.cut text next edits) := by
  cases edits with
  | nil =>
      rw [Edit.cut, Edit.cut, Painted.paint_outside, Painted.paint_outside, ← Painted.outside_append,
        ← Span.drop_eq_slice_append text order]
  | cons edit edits =>
      have start := later edit (by simp)
      rw [Edit.cut, if_neg (by omega), Edit.cut, if_neg (by omega),
        Span.slice_eq_append text order start]
      simp [Region.outside, Painted.outside]

structure Fragment.Change where
  size : Nat
  replacement : List Region

def Fragment.edit (fragment : Fragment) (change : Change) : Edit :=
  ⟨⟨fragment.span.start, fragment.span.start + change.size⟩, change.replacement⟩

def Fragment.changed (fragment : Fragment) : Option Change → Painted
  | none => fragment.paint
  | some change =>
    Piece.paint change.replacement ++ Painted.outside (fragment.text.drop change.size)

abbrev Changes := List (Fragment × Option Fragment.Change)

namespace Changes

def edits (changes : Changes) : List (Nat × Edit) :=
  changes.flatMap fun (fragment, change) =>
    (change.map fun change => (fragment.index, fragment.edit change)).toList

def paint (changes : Changes) : Painted :=
  changes.flatMap fun (fragment, change) => fragment.changed change

def Fits (changes : Changes) : Prop :=
  ∀ fragment change, (fragment, some change) ∈ changes →
    fragment.kind = .outside ∧ change.size ≤ fragment.text.length

theorem Fits.sublist {fewer all : Changes} (fits : all.Fits) (sub : fewer.Sublist all) : fewer.Fits :=
  fun fragment change member => fits fragment change (sub.subset member)

@[simp] theorem edits_append (first second : Changes) :
    edits (first ++ second) = edits first ++ edits second :=
  List.flatMap_append

@[simp] theorem paint_append (first second : Changes) :
    paint (first ++ second) = paint first ++ paint second :=
  List.flatMap_append

theorem mem_edits {changes : Changes} {found : Nat × Edit} :
    found ∈ changes.edits ↔ ∃ fragment change, (fragment, some change) ∈ changes ∧
      found = (fragment.index, fragment.edit change) := by
  constructor
  · intro member
    obtain ⟨⟨fragment, change⟩, inChanges, same⟩ := List.mem_flatMap.mp member
    obtain ⟨own, rfl, rfl⟩ := Option.map_eq_some_iff.mp (Option.mem_toList.mp same)
    exact ⟨fragment, own, inChanges, rfl⟩
  · rintro ⟨fragment, change, inChanges, rfl⟩
    exact List.mem_flatMap.mpr ⟨_, inChanges, by simp⟩

theorem exists_of_mem_edits {changes : Changes} {fragments : List Fragment}
    (fragmentsEq : changes.map Prod.fst = fragments) {found : Nat × Edit}
    (member : found ∈ changes.edits) :
    ∃ fragment change, fragment ∈ fragments ∧ (fragment, some change) ∈ changes ∧
      found = (fragment.index, fragment.edit change) := by
  obtain ⟨fragment, change, inChanges, same⟩ := mem_edits.mp member
  exact ⟨fragment, change, fragmentsEq ▸ List.mem_map_of_mem (f := Prod.fst) inChanges, inChanges,
    same⟩

theorem paint_of_edits {changes : Changes} (unedited : changes.edits = []) :
    changes.paint = (changes.map Prod.fst).flatMap Fragment.paint := by
  rw [paint, List.flatMap_map]
  refine List.flatMap_congr fun entry member => ?_
  obtain ⟨fragment, change⟩ := entry
  cases change with
  | none => rfl
  | some change =>
      have edit := mem_edits.mpr ⟨fragment, change, member, rfl⟩
      simp [unedited] at edit

section Region

variable {index offset : Nat} {kind : RegionKind} {lines : List (List Char)} {changes : Changes}

theorem start_of_mem_edits
    (fragments : changes.map Prod.fst = Fragment.ofLines index kind offset lines) :
    ∀ edit ∈ changes.edits.map Prod.snd, offset ≤ edit.span.start := by
  intro edit member
  obtain ⟨found, inEdits, rfl⟩ := List.mem_map.mp member
  obtain ⟨fragment, change, inLines, _, rfl⟩ := exists_of_mem_edits fragments inEdits
  obtain ⟨front, back, split⟩ := List.append_of_mem inLines
  obtain ⟨_, _, _, _, _, spanEq, _⟩ := Fragment.ofLines_split split
  have start : fragment.span.start = offset + _ := congrArg Span.start spanEq
  exact start ▸ Nat.le_add_right offset _

theorem sorted_edits
    (fragments : changes.map Prod.fst = Fragment.ofLines index kind offset lines) :
    Edit.sorted (changes.edits.map Prod.snd) = changes.edits.map Prod.snd := by
  refine List.mergeSort_of_pairwise ?_
  induction lines generalizing offset changes with
  | nil =>
      rw [List.map_eq_nil_iff.mp fragments]
      exact .nil
  | cons line lines ih =>
      obtain ⟨⟨fragment, change⟩, rest, rfl, rfl, later⟩ := List.map_eq_cons_iff.mp fragments
      cases change with
      | none => exact @ih _ rest later
      | some change =>
          refine List.pairwise_cons.mpr ⟨fun edit member => ?_, @ih _ rest later⟩
          have start := start_of_mem_edits later edit member
          exact decide_eq_true (Nat.le_trans (Nat.le_add_right offset line.length) start)

theorem paint_cut_edits {text : List Char}
    (fragments : changes.map Prod.fst = Fragment.ofLines index .outside offset lines)
    (rest : text.drop offset = lines.flatten) (fits : changes.Fits) :
    Piece.paint (Edit.cut text offset (changes.edits.map Prod.snd)) = changes.paint := by
  induction lines generalizing offset changes with
  | nil =>
      rw [List.map_eq_nil_iff.mp fragments]
      simp [edits, paint, Edit.cut, rest, Region.outside]
  | cons line lines ih =>
      obtain ⟨⟨fragment, change⟩, others, rfl, rfl, later⟩ := List.map_eq_cons_iff.mp fragments
      rw [List.flatten_cons] at rest
      have below : text.drop (offset + line.length) = lines.flatten := by
        rw [← List.drop_drop, rest, List.drop_left]
      have own : (text.take (offset + line.length)).drop offset = line := by
        rw [List.drop_take, rest, Nat.add_sub_cancel_left, List.take_left]
      have after := ih later below (fits.sublist (List.sublist_cons_self ..))
      have starts := start_of_mem_edits later
      cases change with
      | none =>
          have whole := @paint_cut_from text _ _ _ (Nat.le_add_right offset line.length) starts
          rw [Span.slice, own, after] at whole
          exact whole
      | some change =>
          have size : change.size ≤ line.length := (fits _ change (List.mem_cons_self ..)).2
          have whole := @paint_cut_from text _ _ _ (Nat.add_le_add_left size offset) starts
          rw [Span.slice, ← List.drop_drop, own, after] at whole
          show Piece.paint (Edit.cut text offset (Fragment.edit _ change :: (edits others).map Prod.snd)) = _
          rw [Edit.cut, if_neg (by simp [Fragment.edit])]
          simp only [Fragment.edit, Piece.paint_cons, Piece.paint_append, whole]
          simp [Span.slice, Region.outside, paint, Fragment.changed]

end Region

end Changes

theorem EditTable.applyFrom_nil (index : Nat) (regions : List Region) :
    applyFrom [] index regions = regions := by
  induction regions generalizing index with
  | nil => rfl
  | cons region regions ih => rw [applyFrom, ih]; rfl

theorem EditTable.paint_apply (table : EditTable) (regions : List Region) :
    Piece.paint (table.apply regions) = Piece.paint (table.applyFrom 0 regions) := by
  unfold EditTable.apply
  split
  next empty => rw [List.isEmpty_iff.mp empty, applyFrom_nil]
  next => exact Piece.paint_fuse _

namespace Changes

theorem paint_splice {index : Nat} {region : Region} {changes : Changes}
    (fragments : changes.map Prod.fst = Fragment.ofRegion index region) (fits : changes.Fits)
    (edited : changes.edits ≠ []) :
    Piece.paint (Edit.splice region.text (changes.edits.map Prod.snd)) = changes.paint := by
  obtain ⟨found, member⟩ := List.exists_mem_of_ne_nil _ edited
  obtain ⟨fragment, change, inRegion, inChanges, -⟩ := exists_of_mem_edits fragments member
  obtain ⟨front, back, split⟩ := List.append_of_mem inRegion
  obtain ⟨_, _, _, _, kindEq, _⟩ := Fragment.ofLines_split split
  have free : region.kind = .outside := kindEq.symm.trans (fits _ _ inChanges).1
  rw [Fragment.ofRegion, free] at fragments
  rw [Edit.splice, sorted_edits fragments]
  exact paint_cut_edits fragments (Text.flatten_physicalLines region.text).symm fits

theorem paint_region {index : Nat} {region : Region} {changes : Changes}
    (fragments : changes.map Prod.fst = Fragment.ofRegion index region) (fits : changes.Fits)
    {found : Option (List Edit)} (foundEq : found =
      let own := changes.edits.map Prod.snd
      if own = [] then none else some own) :
    Piece.paint (match found with
      | some edits => Edit.splice region.text edits
      | none => [region]) = changes.paint := by
  by_cases edited : changes.edits = []
  · have unfound : found = none := by simpa [edited] using foundEq
    rw [unfound, paint_of_edits edited, fragments, Fragment.ofRegion, Fragment.flatMap_paint_ofLines,
      Text.flatten_physicalLines]
    simp
  · have isFound : found = some (changes.edits.map Prod.snd) := by simpa [edited] using foundEq
    rw [isFound]
    exact paint_splice fragments fits edited

section Regions

variable {index place : Nat} {region : Region} {regions : List Region} {own others : Changes}

theorem filter_edits_own (ownEq : own.map Prod.fst = Fragment.ofRegion index region)
    (othersEq : others.map Prod.fst = Fragment.ofRegions (index + 1) regions) :
    (edits (own ++ others)).filter (·.1 == index) = edits own := by
  rw [edits_append, List.filter_append, List.filter_eq_self.mpr, List.filter_eq_nil_iff.mpr,
    List.append_nil]
  · intro edit member
    obtain ⟨fragment, _, inRegions, _, rfl⟩ := exists_of_mem_edits othersEq member
    have later := (Fragment.index_ofRegions inRegions).1
    simp only [beq_iff_eq]
    omega
  · intro edit member
    obtain ⟨fragment, _, inRegion, _, rfl⟩ := exists_of_mem_edits ownEq member
    simp [Fragment.index_ofLines inRegion]

theorem filter_edits_others (ownEq : own.map Prod.fst = Fragment.ofRegion index region)
    (late : index < place) :
    (edits (own ++ others)).filter (·.1 == place) = (edits others).filter (·.1 == place) := by
  rw [edits_append, List.filter_append, List.filter_eq_nil_iff.mpr, List.nil_append]
  intro edit member
  obtain ⟨fragment, _, inRegion, _, rfl⟩ := exists_of_mem_edits ownEq member
  simp [Fragment.index_ofLines inRegion, Nat.ne_of_lt late]

end Regions

theorem paint_applyFrom {table : EditTable} {index : Nat} {regions : List Region}
    {changes : Changes} (fragments : changes.map Prod.fst = Fragment.ofRegions index regions)
    (fits : changes.Fits) (found : ∀ place, index ≤ place → table.find? place =
      let own := (changes.edits.filter (·.1 == place)).map Prod.snd
      if own = [] then none else some own) :
    Piece.paint (table.applyFrom index regions) = changes.paint := by
  induction regions generalizing index changes with
  | nil =>
      rw [List.map_eq_nil_iff.mp fragments]
      rfl
  | cons region regions ih =>
      obtain ⟨own, others, rfl, ownEq, othersEq⟩ := List.map_eq_append_iff.mp fragments
      have here := found index (Nat.le_refl index)
      rw [filter_edits_own ownEq othersEq] at here
      have after := @ih (index + 1) others othersEq (fits.sublist (List.sublist_append_right ..))
        fun place late => by rw [found place (by omega), filter_edits_others ownEq late]
      rw [EditTable.applyFrom, Piece.paint_append, after, paint_append]
      exact congrArg (· ++ paint others)
        (paint_region ownEq (fits.sublist (List.sublist_append_left ..)) here)

/-- Edited regions are painted as the changed fragments one after the other. -/
theorem paint_apply {regions : List Region} {changes : Changes}
    (fragments : changes.map Prod.fst = Fragment.ofRegions 0 regions) (fits : changes.Fits) :
    Piece.paint ((EditTable.ofList changes.edits).apply regions) = changes.paint := by
  rw [EditTable.paint_apply]
  exact paint_applyFrom fragments fits fun place _ => EditTable.find?_ofList_eq changes.edits place

end Changes

namespace Line

def editsBy (change : Fragment → Option Fragment.Change) (line : Line) : List (Nat × Edit) :=
  line.fragments.flatMap fun fragment =>
    ((change fragment).map fun own => (fragment.index, fragment.edit own)).toList

def changedBy (change : Fragment → Option Fragment.Change) (line : Line) : Painted :=
  line.fragments.flatMap fun fragment => fragment.changed (change fragment)

end Line

/-- A document edited line by line, where each line is told of the lines right above and below. -/
theorem paint_apply_lines {regions : List Region}
    {change : Option Line → Line → Option Line → Fragment → Option Fragment.Change}
    (fits : ∀ above below, ∀ line ∈ Line.ofRegions regions, ∀ fragment ∈ line.fragments, ∀ own,
      change above line below fragment = some own →
        fragment.kind = .outside ∧ own.size ≤ fragment.text.length) :
    Piece.paint ((EditTable.ofList (flatMapAround (fun above line below =>
      line.editsBy (change above line below)) none (Line.ofRegions regions))).apply regions) =
        flatMapAround (fun above line below => line.changedBy (change above line below)) none
          (Line.ofRegions regions) := by
  generalize changesEq : flatMapAround (fun above (line : Line) below =>
    line.fragments.map fun fragment => (fragment, change above line below fragment)) none
      (Line.ofRegions regions) = changes
  have fragments : changes.map Prod.fst = Fragment.ofRegions 0 regions := by
    rw [List.map_eq_flatMap, ← changesEq, flatMap_flatMapAround]
    simp only [List.flatMap_map, List.flatMap_singleton']
    rw [flatMapAround_const, Line.ofRegions, Line.flatMap_fragments_group]
  have changesFit : Changes.Fits changes := by
    intro fragment own member
    rw [← changesEq] at member
    obtain ⟨front, line, back, split, found⟩ := mem_flatMapAround.mp member
    obtain ⟨other, inLine, same⟩ := List.mem_map.mp found
    obtain ⟨rfl, changed⟩ := Prod.mk.inj same
    exact fits _ _ line (by simp [split]) other inLine own changed
  have painted := Changes.paint_apply fragments changesFit
  rw [← changesEq, Changes.edits, Changes.paint, flatMap_flatMapAround, flatMap_flatMapAround]
    at painted
  simp only [List.flatMap_map] at painted
  exact painted

end DollarMath
