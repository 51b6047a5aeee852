import DollarMath.Proofs.Conversion.BlankRows
import DollarMath.Proofs.Conversion.Moves

/-!
The documents that the default conversion leaves as they are: nothing outside the frozen regions is
left to replace. A conversion settles a document just if what it gives back reads so.
-/

namespace DollarMath

def frozenCount (regions : List Region) : Nat :=
  (Piece.paint regions).countP (·.2 != .outside)

@[simp] theorem frozenCount_append (first second : List Region) :
    frozenCount (first ++ second) = frozenCount first + frozenCount second := by
  rw [frozenCount, Piece.paint_append, List.countP_append]
  rfl

theorem frozenCount_cons (region : Region) (regions : List Region) :
    frozenCount (region :: regions) = frozenCount [region] + frozenCount regions :=
  frozenCount_append [region] regions

@[simp] theorem frozenCount_fuse (regions : List Region) :
    frozenCount (Piece.fuse regions) = frozenCount regions := by
  rw [frozenCount, Piece.paint_fuse]
  rfl

theorem frozenCount_of_isOutside {region : Region} (free : region.isOutside = true) :
    frozenCount [region] = 0 := by
  rw [frozenCount, Painted.paint_of_isOutside free]
  simp [Painted.outside]

theorem frozenCount_ne_zero {region : Region} {regions : List Region} (member : region ∈ regions)
    (frozen : region.isOutside = false) (nonempty : region.text ≠ []) :
    frozenCount regions ≠ 0 := by
  have own : frozenCount [region] = region.text.length := by
    have kind : region.kind ≠ .outside := by simpa [Piece.isOutside] using frozen
    simp [frozenCount, List.countP_map, Function.comp_def, kind]
  have filled := List.length_pos_iff.mpr nonempty
  obtain ⟨front, back, rfl⟩ := List.append_of_mem member
  rw [frozenCount_append, frozenCount_cons]
  omega

theorem frozenCount_displayBlock (newline indent body : List Char) (previous next : Option Char) :
    frozenCount (displayBlock newline indent body previous next) ≠ 0 := by
  refine @frozenCount_ne_zero (Region.display (indent ++ ['$', '$'] ++ newline ++ indent ++ body ++
    newline ++ (indent ++ ['$', '$']))) _ ?_ rfl ?_
  · simp [displayBlock]
  · simp [Region.display]

theorem frozenCount_dollars (body : List Char) : frozenCount [Region.dollars body] ≠ 0 :=
  @frozenCount_ne_zero (Region.dollars body) _ (by simp) rfl (by simp [Region.dollars])

inductive Reads {α : Type} (recognize : Text.Recognizer α) :
    (start : Option Char) → List Region → (before : Option Char) → (value : α) → Prop
  | here {start region regions previous taken value next} : region.isOutside = true →
      .hit previous taken value next ∈ Text.scan recognize none region.text →
      Reads recognize start (region :: regions) (previous.or start) value
  | later {start region regions before value} :
      Reads recognize (Text.lastOr start region.text) regions before value →
      Reads recognize start (region :: regions) before value

/-- A builder that keeps a find, depending on the character before it and on what was read, or puts
frozen text in its place. -/
structure Freezes {α : Type} (build : Build α) (keeps : Option Char → α → Prop) : Prop where
  keeps_iff : ∀ before taken value after, build before taken value after = none ↔ keeps before value
  freezes : ∀ before taken value after regions, build before taken value after = some regions →
    frozenCount regions ≠ 0

section Substitution

variable {α : Type} {recognize : Text.Recognizer α} {build : Build α} {revise : Revision}
  {keeps : Option Char → α → Prop} {before : Option Char} {regions : List Region}

def reviseOwn (revise : Revision) (before : Option Char) (region : Region) (after : Option Char) :
    List Region :=
  if region.isOutside then revise before region.text after else [region]

theorem reviseOutsideAfter_cons {region : Region} (nonempty : region.text ≠ []) :
    reviseOutsideAfter revise (fun _ => false) before (region :: regions) [] =
      reviseOwn revise before region (firstOf regions) ++
        reviseOutsideAfter revise (fun _ => false) (Text.lastOr before region.text) regions [] := by
  rw [reviseOutsideAfter, Text.lastOr_of_ne_nil nonempty]
  simp [reviseOwn, reviseAround, nonempty]

theorem frozenCount_le_reviseOwn (region : Region) (after : Option Char) :
    frozenCount [region] ≤ frozenCount (reviseOwn revise before region after) := by
  unfold reviseOwn
  split
  next free =>
    rw [frozenCount_of_isOutside free]
    exact Nat.zero_le _
  next => exact Nat.le_refl _

theorem frozenCount_le_revise (nonempty : ∀ region ∈ regions, region.text ≠ []) :
    frozenCount regions ≤
      frozenCount (reviseOutsideAfter revise (fun _ => false) before regions []) := by
  induction regions generalizing before with
  | nil => exact Nat.le_refl _
  | cons region regions ih =>
      have rest := @ih (Text.lastOr before region.text)
        fun other member => nonempty other (by simp [member])
      have own := @frozenCount_le_reviseOwn revise before region (firstOf regions)
      rw [reviseOutsideAfter_cons (nonempty region (by simp)), frozenCount_cons, frozenCount_append]
      omega

theorem keeps_of_frozenCount (freezes : Freezes build keeps) {text taken : List Char}
    {after previous next : Option Char} {value : α}
    (unfrozen : frozenCount (substitution recognize build before text after) = 0)
    (found : .hit previous taken value next ∈ Text.scan recognize none text) :
    keeps (previous.or before) value := by
  rw [← freezes.keeps_iff (previous.or before) taken value (next.or after)]
  cases built : build (previous.or before) taken value (next.or after) with
  | none => rfl
  | some made =>
      obtain ⟨front, back, whole⟩ := List.append_of_mem found
      have frozen := freezes.freezes _ _ _ _ _ built
      unfold substitution at unfrozen
      rw [whole, List.flatMap_append, List.flatMap_cons] at unfrozen
      simp only [frozenCount_append, built, Option.getD_some] at unfrozen
      omega

theorem paint_substitution_of_keeps (freezes : Freezes build keeps) {text : List Char}
    {after : Option Char}
    (kept : ∀ previous taken value next,
      .hit previous taken value next ∈ Text.scan recognize none text →
        keeps (previous.or before) value) :
    Piece.paint (substitution recognize build before text after) = Painted.outside text := by
  have spelled := Text.flatMap_text_scan recognize none text
  unfold substitution
  generalize Text.scan recognize none text = all at kept spelled
  subst spelled
  induction all with
  | nil => rfl
  | cons found all ih =>
      have rest := ih fun previous taken value next member =>
        kept previous taken value next (List.mem_cons_of_mem _ member)
      rw [List.flatMap_cons, Piece.paint_append, rest, List.flatMap_cons, Painted.outside_append]
      cases found with
      | gap char => simp [Text.Found.text, Region.outside]
      | hit previous taken value next =>
          have own := kept previous taken value next (by simp)
          rw [← freezes.keeps_iff _ taken _ (next.or after)] at own
          simp only [own, Option.getD_none, Painted.paint_outside, Text.Found.text]

theorem keeps_of_reads (freezes : Freezes build keeps)
    (nonempty : ∀ region ∈ regions, region.text ≠ [])
    (unfrozen : frozenCount (reviseOutsideAfter (substitution recognize build) (fun _ => false)
      before regions []) = frozenCount regions)
    {found : Option Char} {value : α} (reads : Reads recognize before regions found value) :
    keeps found value := by
  -- Frozen text only grows in a region, so where the count is the same none was put into any.
  induction reads with
  | @here before region regions previous taken value next free member =>
      have others : ∀ other ∈ regions, other.text ≠ [] :=
        fun other member => nonempty other (by simp [member])
      have rest := @frozenCount_le_revise (substitution recognize build)
        (Text.lastOr before region.text) regions others
      rw [reviseOutsideAfter_cons (nonempty region (by simp)), frozenCount_cons, frozenCount_append,
        frozenCount_of_isOutside free, reviseOwn, if_pos free] at unfrozen
      have noneFrozen : frozenCount (substitution recognize build before region.text (firstOf regions)) =
          0 := by omega
      exact keeps_of_frozenCount freezes noneFrozen member
  | @later before region regions found value _ ih =>
      have others : ∀ other ∈ regions, other.text ≠ [] :=
        fun other member => nonempty other (by simp [member])
      have rest := @frozenCount_le_revise (substitution recognize build)
        (Text.lastOr before region.text) regions others
      have own := @frozenCount_le_reviseOwn (substitution recognize build) before region
        (firstOf regions)
      rw [reviseOutsideAfter_cons (nonempty region (by simp)), frozenCount_cons, frozenCount_append]
        at unfrozen
      exact ih others (by omega)

theorem paint_revise_of_keeps (freezes : Freezes build keeps)
    (nonempty : ∀ region ∈ regions, region.text ≠ [])
    (kept : ∀ found value, Reads recognize before regions found value → keeps found value) :
    Piece.paint (reviseOutsideAfter (substitution recognize build) (fun _ => false) before regions
      []) = Piece.paint regions := by
  induction regions generalizing before with
  | nil => rfl
  | cons region regions ih =>
      have rest := @ih (Text.lastOr before region.text)
        (fun other member => nonempty other (by simp [member]))
        fun found value reads => kept found value (.later reads)
      have own : Piece.paint (reviseOwn (substitution recognize build) before region
          (firstOf regions)) = Piece.paint [region] := by
        unfold reviseOwn
        split
        next free =>
          rw [Painted.paint_of_isOutside free]
          exact paint_substitution_of_keeps freezes
            fun previous taken value next member => kept _ _ (.here free member)
        next => rfl
      rw [reviseOutsideAfter_cons (nonempty region (by simp)), Piece.paint_append, rest, own,
        ← Piece.paint_append, List.singleton_append]

theorem reviseOutside_eq_self_iff (freezes : Freezes build keeps) (fused : Piece.IsFused regions) :
    reviseOutside (substitution recognize build) regions = regions ↔
      ∀ before value, Reads recognize none regions before value → keeps before value := by
  constructor
  · intro same before value reads
    refine keeps_of_reads freezes fused.nonempty ?_ reads
    have count := congrArg frozenCount same
    rwa [reviseOutside, frozenCount_fuse] at count
  · intro kept
    refine (Piece.isFused_fuse _).eq_of_paint_eq fused ?_
    rw [Piece.paint_fuse]
    exact paint_revise_of_keeps freezes fused.nonempty kept

end Substitution

namespace Delimiters

theorem freezes_toDisplay (newline : List Char) :
    Freezes (toDisplay newline) fun _ inside => Text.strip inside = [] := by
  refine ⟨fun before taken inside after => ?_, fun before taken inside after regions built => ?_⟩
  · simp [toDisplay]
  · unfold toDisplay at built
    dsimp only at built
    split at built
    next => simp at built
    next =>
      simp only [Option.some.injEq] at built
      subst built
      exact frozenCount_displayBlock _ _ _ _ _

theorem any_ne_feed_iff {before : Option Char} :
    before.any (· != '\n') = true ↔ ¬ StartsLine before := by
  cases before <;> simp [StartsLine]

theorem freezes_toDisplayAtLine (newline : List Char) :
    Freezes (toDisplayAtLine newline) fun before inside =>
      StartsLine before → Text.strip inside = [] := by
  have block := freezes_toDisplay newline
  refine ⟨fun before taken inside after => ?_, fun before taken inside after regions built => ?_⟩
  · unfold toDisplayAtLine
    split
    next within =>
      simp [any_ne_feed_iff.mp within]
    next atLine =>
      rw [any_ne_feed_iff, not_not] at atLine
      rw [block.keeps_iff]
      simp [atLine]
  · unfold toDisplayAtLine at built
    split at built
    next => simp at built
    next => exact block.freezes before taken inside after regions built

theorem freezes_toInline : Freezes toInline fun _ inside => Text.strip inside = [] := by
  refine ⟨fun before taken inside after => ?_, fun before taken inside after regions built => ?_⟩
  · simp [toInline]
  · obtain ⟨_, rfl⟩ := toInline_eq_some built
    exact frozenCount_dollars _

def passes (newline : List Char) : List (List Region → List Region) :=
  [reviseOutside (substitution escapedSquares (toDisplay newline)),
    reviseOutside (substitution bracketLines (toDisplayAtLine newline)),
    reviseOutside (substitution escapedParens toInline),
    reviseOutside (substitution paddedDollars toInline)]

theorem advances_passes {newline : List Char} (lineEnd : IsLineEnd newline) :
    ∀ pass ∈ passes newline, Advances pass := by
  simp only [passes, List.mem_cons, List.not_mem_nil, or_false, forall_eq_or_imp, forall_eq]
  refine ⟨?_, ?_, ?_, ?_⟩
  · exact advances_of_passes (passes_substitution (substitutes_escapedSquares lineEnd))
  · exact advances_of_passes (passes_substitution (substitutes_bracketLines lineEnd))
  · exact advances_of_passes (passes_substitution substitutes_escapedParens)
  · exact advances_of_passes (passes_substitution substitutes_paddedDollars)

theorem normalize_eq_self_iff {regions : List Region} (fused : Piece.IsFused regions) :
    normalize regions = regions ↔
      (∀ before inside, Reads escapedSquares none regions before inside → Text.strip inside = []) ∧
      (∀ before inside, Reads bracketLines none regions before inside → StartsLine before →
        Text.strip inside = []) ∧
      (∀ before inside, Reads escapedParens none regions before inside → Text.strip inside = []) ∧
      ∀ before inside, Reads paddedDollars none regions before inside → Text.strip inside = [] := by
  generalize newlineEq : lineEnding (Piece.join regions) = newline
  have lineEnd : IsLineEnd newline := newlineEq ▸ isLineEnd_lineEnding _
  have folded : normalize regions =
      (passes newline).foldl (fun regions pass => pass regions) regions := by
    rw [← newlineEq]
    rfl
  have each : normalize regions = regions ↔ ∀ pass ∈ passes newline, pass regions = regions := by
    rw [folded]
    exact ⟨eq_self_of_foldl_eq (advances_passes lineEnd) fused, foldl_eq_self⟩
  rw [each]
  simp only [passes, List.mem_cons, List.not_mem_nil, or_false, forall_eq_or_imp, forall_eq]
  rw [reviseOutside_eq_self_iff (freezes_toDisplay newline) fused,
    reviseOutside_eq_self_iff (freezes_toDisplayAtLine newline) fused,
    reviseOutside_eq_self_iff freezes_toInline fused,
    reviseOutside_eq_self_iff freezes_toInline fused]

end Delimiters

namespace Environments

theorem freezes_toDisplay (newline : List Char) :
    Freezes (toDisplay newline) fun _ _ => False := by
  refine ⟨fun before taken indent after => ?_, fun before taken indent after regions built => ?_⟩
  · unfold toDisplay
    dsimp only
    split <;> simp
  · unfold toDisplay at built
    dsimp only at built
    split at built
    next =>
      simp only [Option.some.injEq] at built
      rw [← built, frozenCount_cons]
      have block := frozenCount_displayBlock newline [] (taken.drop indent.length)
        indent.getLast? after
      omega
    next =>
      simp only [Option.some.injEq] at built
      subst built
      exact frozenCount_displayBlock _ _ _ _ _

theorem wrap_eq_self_iff {regions : List Region} (fused : Piece.IsFused regions) :
    wrap regions = regions ↔
      ∀ before indent, ¬ Reads environment none regions before indent :=
  reviseOutside_eq_self_iff (freezes_toDisplay _) fused

end Environments

namespace BlankLines

theorem editsFrom_eq_nil_iff {previous : Option Line} {lines : List Line}
    (filled : ∀ line ∈ lines, line.fragments ≠ []) :
    editsFrom previous lines = [] ↔ ∀ front line back, lines = front ++ line :: back →
      isDropped (front.getLast?.or previous) line back.head? = false := by
  rw [editsFrom_eq, List.eq_nil_iff_forall_not_mem]
  constructor
  · intro noEdits front line back whole
    by_contra dropped
    obtain ⟨fragment, inLine⟩ := List.exists_mem_of_ne_nil _ (filled line (by simp [whole]))
    refine noEdits (fragment.index, ⟨fragment.span, []⟩)
      (mem_flatMapAround.mpr ⟨front, line, back, whole, ?_⟩)
    rw [if_pos (by simpa using dropped)]
    exact List.mem_map_of_mem inLine
  · intro kept found member
    obtain ⟨front, line, back, whole, own⟩ := mem_flatMapAround.mp member
    simp [kept front line back whole] at own

theorem normalize_eq_self_iff {regions : List Region} :
    normalize regions = regions ↔
      ∀ front line back, Line.ofRegions regions = front ++ line :: back →
        isDropped front.getLast? line back.head? = false := by
  have filled : ∀ line ∈ Line.ofRegions regions, line.fragments ≠ [] :=
    fun line member => (Line.isPlaced_of_mem member).nonempty
  have each := @editsFrom_eq_nil_iff none _ filled
  simp only [Option.or_none] at each
  rw [normalize_eq_self_iff_editsFrom, each]

end BlankLines

/-- Nothing outside the frozen regions is left for the default conversion to replace: what stands
between delimiters there is blank, no environment stands there, and no blank line is to go. -/
structure Settled (regions : List Region) : Prop where
  squares : ∀ before inside, Reads Delimiters.escapedSquares none regions before inside →
    Text.strip inside = []
  lines : ∀ before inside, Reads Delimiters.bracketLines none regions before inside →
    StartsLine before → Text.strip inside = []
  parens : ∀ before inside, Reads Delimiters.escapedParens none regions before inside →
    Text.strip inside = []
  padded : ∀ before inside, Reads Delimiters.paddedDollars none regions before inside →
    Text.strip inside = []
  environments : ∀ before indent, ¬ Reads Environments.environment none regions before indent
  blanks : ∀ front line back, Line.ofRegions regions = front ++ line :: back →
    BlankLines.isDropped front.getLast? line back.head? = false

theorem convert_default_eq_self_iff (text : List Char) :
    convert {} text = text ↔ Settled (Document.regions text) := by
  have fused := Document.isFused_regions text
  have stages : Stage.enabled {} = [.delimiters, .environments, .blankLines] := rfl
  rw [convert_eq_self_iff, stages]
  simp only [List.mem_cons, List.not_mem_nil, or_false, forall_eq_or_imp, forall_eq, Stage.run]
  rw [Delimiters.normalize_eq_self_iff fused, Environments.wrap_eq_self_iff fused,
    BlankLines.normalize_eq_self_iff]
  constructor
  · rintro ⟨⟨squares, lines, parens, padded⟩, environments, blanks⟩
    exact ⟨squares, lines, parens, padded, environments, blanks⟩
  · intro settled
    exact ⟨⟨settled.squares, settled.lines, settled.parens, settled.padded⟩, settled.environments,
      settled.blanks⟩

/-- A second default conversion changes nothing just if the first one left nothing to replace. -/
theorem convert_convert_iff (text : List Char) :
    convert {} (convert {} text) = convert {} text ↔
      Settled (Document.regions (convert {} text)) :=
  convert_default_eq_self_iff (convert {} text)

/-- A closing dollar right before a digit is not read back as one, so what stood between delimiters
is outside again. -/
theorem convert_convert_ne : convert {} (convert {} "\\(\\(a\\)1\\)".toList) ≠
    convert {} "\\(\\(a\\)1\\)".toList := by
  decide +kernel

end DollarMath
