import DollarMath.Proofs.Conversion.Replaces
import DollarMath.Proofs.Region.Fragments
import DollarMath.Proofs.Text.Search
import Mathlib.Data.List.DropRight

/-!
Every stage works in passes, each of which revises the text outside by the replacements of the
stage. What such passes preserve holds after a whole conversion.
-/

namespace DollarMath

structure Passes (replaces : Replacement) (old new : List Region) : Prop where
  fused : Piece.IsFused new
  revised : Revised replaces none none (Piece.paint old) (Piece.paint new)

abbrev Stage.Passes (stage : Stage) : List Region → List Region → Prop :=
  DollarMath.Passes stage.Replaces

theorem follows_of_substitutes {α : Type} {replaces : Replacement}
    {recognize : Text.Recognizer α} {build : Build α}
    (substitutes : Substitutes recognize build replaces) :
    (substitution recognize build).Follows replaces :=
  substitutes.revised

theorem passes_reviseOutside {replaces : Replacement} {revise : Revision}
    (follows : revise.Follows replaces) {skip : Region → Bool} {regions : List Region}
    {held : List (List Span)} (fused : Piece.IsFused regions)
    (ordered : ∀ pair ∈ regions.zip held, Span.AreOrdered pair.1.text.length pair.2) :
    Passes replaces regions (reviseOutside revise regions skip held) :=
  ⟨Piece.isFused_fuse _, revised_reviseOutside follows fused.nonempty ordered⟩

theorem passes_substitution {replaces : Replacement} {α : Type} {recognize : Text.Recognizer α}
    {build : Build α} (substitutes : Substitutes recognize build replaces)
    {regions : List Region} (fused : Piece.IsFused regions) :
    Passes replaces regions (reviseOutside (substitution recognize build) regions) := by
  refine passes_reviseOutside (follows_of_substitutes substitutes) fused ?_
  simp

theorem Edit.fits_of_split {replaces : Replacement} {before after : Option Char}
    {text left taken right : List Char} {edit : Edit} (whole : text = left ++ taken ++ right)
    (spanEq : edit.span = ⟨left.length, left.length + taken.length⟩) (nonempty : taken ≠ [])
    (replaced : replaces (Text.lastOr before left) taken edit.replacement
      (Text.headOr right after)) :
    edit.Fits replaces before after text := by
  have filled := List.length_pos_iff.mpr nonempty
  have stop : (left ++ taken).length = left.length + taken.length := List.length_append
  subst whole
  refine ⟨?_, ?_⟩
  · rw [spanEq, List.length_append, stop]
    exact ⟨by dsimp only; omega, by dsimp only; omega⟩
  · rw [spanEq, Span.slice]
    dsimp only
    rw [← stop, List.take_left, List.drop_left, List.drop_left, List.append_assoc, List.take_left]
    exact replaced

namespace Delimiters

theorem passes_normalize {regions : List Region} (fused : Piece.IsFused regions) :
    Relation.ReflTransGen (Stage.Passes .delimiters) regions (normalize regions) := by
  have lineEnd := isLineEnd_lineEnding (Piece.join regions)
  unfold normalize
  generalize lineEnding (Piece.join regions) = newline at lineEnd
  dsimp only
  have squares := passes_substitution (substitutes_escapedSquares lineEnd) fused
  have lines := passes_substitution (substitutes_bracketLines lineEnd) squares.fused
  have parens := passes_substitution substitutes_escapedParens lines.fused
  have padded := passes_substitution substitutes_paddedDollars parens.fused
  exact .tail (.tail (.tail (.single squares) lines) parens) padded

end Delimiters

theorem Environments.passes_wrap {regions : List Region} (fused : Piece.IsFused regions) :
    Stage.Passes .environments regions (wrap regions) :=
  passes_substitution (substitutes_environment (isLineEnd_lineEnding _)) fused

namespace BareTokens

theorem passes_pass {replaces : Replacement} {revise : Revision}
    (follows : revise.Follows replaces) {regions : List Region} (fused : Piece.IsFused regions) :
    Passes replaces regions (pass revise regions) :=
  passes_reviseOutside follows fused (ordered_strayDollars regions)

theorem passes_wrap {regions : List Region} (fused : Piece.IsFused regions) :
    Relation.ReflTransGen (Stage.Passes .bareTokens) regions (wrap regions) := by
  have macros : Revision.Follows wrapMacros (Stage.Replaces .bareTokens) :=
    fun before text after => (substitutes_rootOrFraction before after).revised before text after
  have degrees := passes_pass (follows_of_substitutes substitutes_degree) fused
  have wrapped := passes_pass macros degrees.fused
  have scripts := passes_pass (follows_of_substitutes substitutes_script) wrapped.fused
  exact .tail (.tail (.single degrees) wrapped) scripts

end BareTokens

theorem EditTable.isFused_apply {edits : List (Nat × Edit)} {regions : List Region}
    (fused : Piece.IsFused regions) : Piece.IsFused ((EditTable.ofList edits).apply regions) := by
  unfold EditTable.apply
  split
  · exact fused
  · exact Piece.isFused_fuse _

theorem Line.LiesIn.sole {regions : List Region} {front back : List Line} {line : Line}
    {fragment : Fragment} (placed : LiesIn regions front line back)
    (sole : line.fragments = [fragment]) :
    ∃ before left region right after, regions = before ++ region :: after ∧
      fragment.index = before.length ∧
      Fragment.LiesIn (front.flatMap fragments) fragment (back.flatMap fragments)
        before left region right after ∧
      StartsLine (Text.lastOr (Text.lastOr none (Piece.join before)) left) ∧
      (fragment.text.getLast? = some '\n' ∨
        Text.headOr right (Text.headOr (Piece.join after) none) = none) := by
  have split := placed.fragmentsEq
  rw [sole, List.singleton_append] at split
  obtain ⟨before, left, region, right, after, regionsEq, indexEq, lies⟩ :=
    Fragment.ofRegions_split split
  refine ⟨before, left, region, right, after, regionsEq, by simpa using indexEq, lies, ?_, ?_⟩
  · have starts := placed.starts
    rw [lies.frontEq, Text.lastOr_append] at starts
    exact starts
  · by_cases last : back = []
    · right
      have rest := lies.backEq
      rw [last, List.flatMap_nil, List.flatMap_nil] at rest
      obtain ⟨rightEq, afterEq⟩ := List.append_eq_nil_iff.mp rest.symm
      rw [rightEq, afterEq]
      rfl
    · left
      obtain ⟨others, fragmentEnd, whole, ended⟩ := placed.cut.ends last
      rw [sole] at whole
      have same : fragment = fragmentEnd := by
        rcases List.singleton_eq_append_iff.mp whole with ⟨_, rest⟩ | ⟨_, rest⟩
        · exact (List.cons.inj rest).1.symm
        · simp at rest
      subst same
      simpa [Fragment.endsLine] using ended

theorem Edit.fits_of_sole {replaces : Replacement} {regions before after : List Region}
    {region : Region} {front back : List Line} {line : Line} {fragment : Fragment}
    (placed : Line.LiesIn regions front line back) (sole : line.fragments = [fragment])
    (whole : regions = before ++ region :: after) (place : before.length = fragment.index)
    (free : fragment.kind = .outside) {edit : Edit} {taken rest : List Char}
    (textEq : fragment.text = taken ++ rest) (nonempty : taken ≠ [])
    (spanEq : edit.span = ⟨fragment.span.start, fragment.span.start + taken.length⟩)
    (replaced : ∀ above below, StartsLine above →
      (fragment.text.getLast? = some '\n' ∨ below = none) →
      replaces above taken edit.replacement (Text.headOr rest below)) :
    region.isOutside = true ∧ edit.Fits replaces (Text.lastOr none (Piece.join before))
      (Text.headOr (Piece.join after) none) region.text := by
  obtain ⟨others, left, owner, right, later, regionsEq, indexEq, lies, starts, ends⟩ :=
    placed.sole sole
  obtain ⟨rfl, same⟩ := List.append_inj (whole.symm.trans regionsEq) (place.trans indexEq)
  simp only [List.cons.injEq] at same
  obtain ⟨rfl, rfl⟩ := same
  refine ⟨Piece.isOutside_iff.mpr (lies.kindEq ▸ free), ?_⟩
  have wholeText : region.text = left ++ taken ++ (rest ++ right) := by
    rw [lies.textEq, textEq]
    simp
  refine Edit.fits_of_split wholeText ?_ nonempty ?_
  · rw [spanEq, lies.spanEq]
  · rw [Text.headOr_append]
    exact replaced _ _ starts ends

namespace FormulaLines

theorem mem_editsFrom {newline : List Char} {above : Bool} {lines : List Line}
    {found : Nat × Edit} (member : found ∈ editsFrom newline above lines) :
    ∃ front line back, lines = front ++ line :: back ∧ edit? newline line = some found := by
  induction lines generalizing above with
  | nil => simp [editsFrom] at member
  | cons line lines ih =>
      rw [editsFrom] at member
      rcases List.mem_append.mp member with own | later
      · split at own
        · simp at own
        · exact ⟨[], line, lines, rfl, by simpa using own⟩
      · obtain ⟨front, other, back, rfl, edited⟩ := ih later
        exact ⟨line :: front, other, back, rfl, edited⟩

theorem edit?_eq_some {newline : List Char} {line : Line} {index : Nat} {edit : Edit}
    (edited : edit? newline line = some (index, edit)) :
    ∃ fragment, line.fragments = [fragment] ∧ fragment.kind = .outside ∧ index = fragment.index ∧
      Text.strip line.content ≠ [] ∧
      edit.span = ⟨fragment.span.start, fragment.span.start + line.content.length⟩ ∧
      edit.replacement = [Region.display
        (['$', '$'] ++ newline ++ Text.stripRight line.content ++ newline ++ ['$', '$'])] := by
  obtain ⟨fragment, sole, made⟩ := Option.bind_eq_some_iff.mp edited
  obtain ⟨fragmentsEq, free⟩ := Line.soleFragment?_eq_some.mp sole
  split at made
  next formula =>
    simp only [Option.some.injEq, Prod.mk.injEq] at made
    obtain ⟨rfl, rfl⟩ := made
    refine ⟨fragment, fragmentsEq, free, rfl, ?_, rfl, rfl⟩
    intro isNil
    simp [Formula.isFormulaLine, isNil] at formula
  next => simp at made

theorem fits_of_mem_editsFrom {newline : List Char} (lineEnd : IsLineEnd newline)
    {regions before after : List Region} {region : Region} {edit : Edit}
    (whole : regions = before ++ region :: after)
    (member : (before.length, edit) ∈ editsFrom newline false (Line.ofRegions regions)) :
    region.isOutside = true ∧ edit.Fits (Stage.Replaces .formulaLines)
      (Text.lastOr none (Piece.join before)) (Text.headOr (Piece.join after) none) region.text := by
  obtain ⟨above, line, below, split, edited⟩ := mem_editsFrom member
  obtain ⟨fragment, sole, free, place, nonempty, spanEq, made⟩ := edit?_eq_some edited
  have textEq : fragment.text = line.content ++ Text.lineReturn line.text := by
    rw [Line.content, Text.lineBody_append_lineReturn, Line.text, sole]
    simp
  have filled : line.content ≠ [] := by
    intro isNil
    rw [isNil] at nonempty
    exact nonempty rfl
  refine Edit.fits_of_sole (Line.ofRegions_split split) sole whole place free textEq filled
    spanEq ?_
  intro previous next starts ends
  rw [made]
  refine .formula lineEnd nonempty (Text.getLast?_lineBody _) starts ?_
  cases returnEq : Text.lineReturn line.text with
  | nil =>
      rcases ends with feed | rfl
      · -- The content would end with a line feed.
        have last := Text.getLast?_lineBody line.text
        rw [textEq, returnEq, List.append_nil, Line.content] at feed
        simp [feed, Text.isReturn] at last
      · rfl
  | cons char rest =>
      have member : char ∈ Text.lineReturn line.text := by simp [returnEq]
      simpa using Text.isReturn_of_mem_lineReturn member

theorem passes_promote {regions : List Region} (fused : Piece.IsFused regions) :
    Stage.Passes .formulaLines regions (promote regions) :=
  ⟨EditTable.isFused_apply fused, revised_apply fun _ _ _ whole _ member =>
    fits_of_mem_editsFrom (isLineEnd_lineEnding (Piece.join regions)) whole member⟩

end FormulaLines

namespace BlankLines

theorem editsFrom_eq (previous : Option Line) (lines : List Line) :
    editsFrom previous lines = flatMapAround (fun above line below =>
      if isDropped above line below then
        line.fragments.map fun fragment => (fragment.index, ⟨fragment.span, []⟩)
      else []) previous lines := by
  induction lines generalizing previous with
  | nil => rfl
  | cons line lines ih => rw [editsFrom, ih, flatMapAround]

theorem mem_editsFrom {previous : Option Line} {lines : List Line} {found : Nat × Edit}
    (member : found ∈ editsFrom previous lines) :
    ∃ front line back fragment, lines = front ++ line :: back ∧
      isDropped (front.getLast?.or previous) line back.head? = true ∧
      fragment ∈ line.fragments ∧ found = (fragment.index, ⟨fragment.span, []⟩) := by
  rw [editsFrom_eq, mem_flatMapAround] at member
  obtain ⟨front, line, back, split, own⟩ := member
  split at own
  next dropped =>
    obtain ⟨fragment, inLine, rfl⟩ := List.mem_map.mp own
    exact ⟨front, line, back, fragment, split, dropped, inLine, rfl⟩
  next => simp at own

theorem isDropped_blank {above below : Option Line} {line : Line}
    (dropped : isDropped above line below = true) :
    Text.allBlank line.text = true ∧ ∀ fragment ∈ line.fragments, fragment.kind = .outside := by
  have facts : line.isBlank = true ∧ line.isOutside = true := by
    unfold isDropped isLoneBlank at dropped
    simp only [Bool.or_eq_true, Bool.and_eq_true] at dropped
    rcases dropped with ⟨_, ⟨blank, free⟩, _⟩ | ⟨_, ⟨blank, free⟩, _⟩
    · exact ⟨blank, free⟩
    · exact ⟨blank, free⟩
  exact ⟨facts.1, by simpa [Line.isOutside] using facts.2⟩

/-- A line wholly outside is a single fragment, since neighbours of one kind are fused. -/
theorem sole_of_isOutside {regions : List Region} (fused : Piece.IsFused regions)
    {front back : List Line} {line : Line} (placed : Line.LiesIn regions front line back)
    (free : ∀ fragment ∈ line.fragments, fragment.kind = .outside) :
    ∃ fragment, line.fragments = [fragment] := by
  cases fragmentsEq : line.fragments with
  | nil => exact absurd fragmentsEq placed.cut.nonempty
  | cons first rest =>
      cases rest with
      | nil => exact ⟨first, rfl⟩
      | cons second rest =>
          have goesOn := placed.cut.goesOn [] first (second :: rest) fragmentsEq (by simp)
          have split := placed.fragmentsEq
          rw [fragmentsEq] at split
          have differ := Fragment.kind_ne_of_next fused split goesOn
          rw [free first (by simp [fragmentsEq]), free second (by simp [fragmentsEq])] at differ
          exact absurd rfl differ

theorem fits_of_mem_editsFrom {regions before after : List Region} {region : Region} {edit : Edit}
    (fused : Piece.IsFused regions) (whole : regions = before ++ region :: after)
    (member : (before.length, edit) ∈ editsFrom none (Line.ofRegions regions)) :
    region.isOutside = true ∧ edit.Fits (Stage.Replaces .blankLines)
      (Text.lastOr none (Piece.join before)) (Text.headOr (Piece.join after) none) region.text := by
  obtain ⟨above, line, below, fragment, split, dropped, inLine, same⟩ := mem_editsFrom member
  simp only [Prod.mk.injEq] at same
  obtain ⟨place, rfl⟩ := same
  have placed := Line.ofRegions_split split
  obtain ⟨blank, free⟩ := isDropped_blank dropped
  obtain ⟨only, sole⟩ := sole_of_isOutside fused placed free
  rw [sole, List.mem_singleton] at inLine
  subst inLine
  obtain ⟨_, _, _, _, _, _, _, lies, _, _⟩ := placed.sole sole
  have textEq : line.text = fragment.text := by simp [Line.text, sole]
  refine Edit.fits_of_sole placed sole whole place (free fragment (by simp [sole]))
    (List.append_nil _).symm lies.nonempty ?_ ?_
  · simp [lies.spanEq]
  · intro previous next starts ends
    exact .blankLine (textEq ▸ blank) starts ends

theorem passes_normalize {regions : List Region} (fused : Piece.IsFused regions) :
    Stage.Passes .blankLines regions (normalize regions) :=
  ⟨EditTable.isFused_apply fused,
    revised_apply fun _ _ _ whole _ member => fits_of_mem_editsFrom fused whole member⟩

end BlankLines

namespace PlainBrackets

theorem groupsFrom_split {opening closing : Char} {offset : Nat} {text : List Char}
    {group : Nat × Nat} (member : group ∈ Text.groupsFrom opening closing offset text) :
    ∃ front inside back, text = front ++ (opening :: inside ++ [closing]) ++ back ∧
      group = (offset + front.length, offset + front.length + 1 + inside.length) ∧
      Text.Encloses opening closing inside := by
  fun_induction Text.groupsFrom opening closing offset text with
  | case1 => simp at member
  | case2 offset rest ih =>
      obtain ⟨front, inside, back, restEq, groupEq, encloses⟩ := ih member
      cases rest with
      | nil => simp at restEq
      | cons next rest =>
          simp only [List.drop_succ_cons, List.drop_zero] at restEq
          subst restEq
          refine ⟨'\\' :: next :: front, inside, back, by simp, ?_, encloses⟩
          rw [groupEq]
          simp only [List.length_cons, Prod.mk.injEq]
          omega
  | case3 offset rest size found _ ih =>
      obtain ⟨inside, later, rfl, rfl, alone⟩ := Text.closingOffset?_eq_some found
      rcases List.mem_cons.mp member with rfl | others
      · exact ⟨[], inside, later, by simp, by simp, alone []⟩
      · obtain ⟨front, own, back, laterEq, groupEq, encloses⟩ := ih others
        have dropped : (inside ++ closing :: later).drop (inside.length + 1) = later := by
          simp [List.drop_append]
        rw [dropped] at laterEq
        subst laterEq
        refine ⟨opening :: inside ++ closing :: front, own, back, by simp, ?_, encloses⟩
        rw [groupEq]
        simp only [List.length_cons, List.length_append, Prod.mk.injEq]
        omega
  | case4 offset rest _ _ ih =>
      obtain ⟨front, inside, back, rfl, groupEq, encloses⟩ := ih member
      refine ⟨opening :: front, inside, back, by simp, ?_, encloses⟩
      rw [groupEq]
      simp only [List.length_cons, Prod.mk.injEq]
      omega
  | case5 offset char rest _ _ ih =>
      obtain ⟨front, inside, back, rfl, groupEq, encloses⟩ := ih member
      refine ⟨char :: front, inside, back, by simp, ?_, encloses⟩
      rw [groupEq]
      simp only [List.length_cons, Prod.mk.injEq]
      omega

theorem groups_split {opening closing : Char} {text : List Char} {group : Nat × Nat}
    (member : group ∈ Text.groups opening closing text) :
    ∃ front inside back, text = front ++ (opening :: inside ++ [closing]) ++ back ∧
      group = (front.length, front.length + 1 + inside.length) ∧
      Text.Encloses opening closing inside := by
  simpa using groupsFrom_split member

theorem edit?_eq_some {style : Style} {document : List Char} {offset : Nat} {held : List Span}
    {text front inside back : List Char} {edit : Edit}
    (textEq : text = front ++ (style.opening :: inside ++ [style.closing]) ++ back) :
    edit? style document offset held text (front.length, front.length + 1 + inside.length) =
        some edit ↔
      Text.strip inside ≠ [] ∧ '\n' ∉ inside ∧ '$' ∉ inside ∧
        held.any (·.contains front.length) = false ∧
        style.accepts (candidate document inside (offset + front.length)) = true ∧
        edit = ⟨⟨front.length, front.length + 1 + inside.length + 1⟩,
          [Region.dollars (Text.strip inside)]⟩ := by
  have insideEq : Span.slice ⟨front.length + 1, front.length + 1 + inside.length⟩ text = inside := by
    have cut := @Span.slice_append (front ++ [style.opening]) inside (style.closing :: back)
    simpa [textEq] using cut
  unfold edit?
  dsimp only
  rw [insideEq]
  by_cases usable : Text.strip inside ≠ [] ∧ '\n' ∉ inside ∧ '$' ∉ inside
  · rw [if_neg (by simp [usable])]
    split
    next kept => simp [kept]
    next free =>
      split
      next accepted => simp [usable, free, accepted, @eq_comm _ edit]
      next refused => simp [refused]
  · rw [if_pos (by simpa [or_assoc, imp_iff_not_or] using usable)]
    simp only [reduceCtorEq, false_iff]
    exact fun all => usable ⟨all.1, all.2.1, all.2.2.1⟩

def Covers (style : Style) (replaces : Replacement) : Prop :=
  ∀ candidate : Formula.Candidate, style.accepts candidate = true →
    Text.strip candidate.inside ≠ [] → '\n' ∉ candidate.inside →
    Text.Encloses style.opening style.closing candidate.inside →
    replaces candidate.before.getLast? (style.opening :: candidate.inside ++ [style.closing])
      [Region.dollars (Text.strip candidate.inside)] candidate.after.head?

theorem covers_squares : Covers squares (Stage.Replaces .squares) := by
  intro candidate accepted filled onLine encloses
  refine .squareSpan filled onLine encloses fun target => ?_
  simp [squares, Formula.Candidate.isMathInSquares, target] at accepted

theorem covers_parens : Covers parens (Stage.Replaces .parens) := by
  intro candidate accepted filled onLine encloses
  refine .parenSpan filled onLine encloses fun label => ?_
  simp [parens, Formula.Candidate.isMathInParens, label] at accepted

theorem candidate_eq (pre inside post : List Char) (opening closing : Char) :
    candidate (pre ++ (opening :: inside ++ [closing]) ++ post) inside pre.length =
      { before := pre.rtake 60
        inside := inside
        inner := Text.strip inside
        after := post.take 60 } := by
  have span : pre.length + 1 + inside.length + 1 =
      (pre ++ (opening :: inside ++ [closing])).length := by
    simp
    omega
  rw [candidate, span, List.drop_left, List.append_assoc, List.take_left]
  rfl

theorem candidate_around (pre inside post : List Char) (opening closing : Char) :
    (candidate (pre ++ (opening :: inside ++ [closing]) ++ post) inside pre.length).before.getLast? =
        Text.lastOr none pre ∧
      (candidate (pre ++ (opening :: inside ++ [closing]) ++ post) inside pre.length).after.head? =
        Text.headOr post none := by
  rw [candidate_eq]
  constructor
  · rw [← Text.getLast?_or, Option.or_none, List.rtake, List.getLast?_drop]
    split
    next short =>
      -- The window holds a character, so nothing stands before the span.
      have empty : pre = [] := List.length_eq_zero_iff.mp (by omega)
      rw [empty]
      rfl
    next => rfl
  · rw [← Text.head?_or, Option.or_none]
    cases post <;> rfl

theorem revised_convertText {style : Style} {replaces : Replacement}
    (covers : Covers style replaces) (pre text post : List Char) (held : List Span) :
    Revised replaces (Text.headOr post none) (Text.lastOr none pre) (Painted.outside text)
      (Piece.paint (convertText style (pre ++ (text ++ post)) pre.length held text)) := by
  have cut : Revised replaces (Text.headOr post none)
      (Text.lastOr (Text.lastOr none pre) (text.take 0))
      (Painted.outside (text.drop 0))
      (Piece.paint (convertText style (pre ++ (text ++ post)) pre.length held text)) := ?_
  · simpa using cut
  refine revised_cut fun edit member => ?_
  obtain ⟨group, inGroups, edited⟩ := List.mem_filterMap.mp member
  obtain ⟨front, inside, back, textEq, rfl, encloses⟩ := groups_split inGroups
  obtain ⟨filled, onLine, _, _, accepted, rfl⟩ := (edit?_eq_some textEq).mp edited
  have covered := covers _ accepted filled onLine encloses
  refine Edit.fits_of_split textEq ?_ (by simp) ?_
  · simp only [List.length_append, List.length_cons, List.length_nil, Span.mk.injEq, true_and]
    omega
  · have whole : pre ++ (text ++ post) =
        (pre ++ front) ++ (style.opening :: inside ++ [style.closing]) ++ (back ++ post) := by
      simp [textEq]
    have around := candidate_around (pre ++ front) inside (back ++ post) style.opening style.closing
    rw [← List.length_append, whole, around.1, around.2, Text.lastOr_append,
      Text.headOr_append] at covered
    exact covered

theorem revised_convertFrom {style : Style} {replaces : Replacement}
    (covers : Covers style replaces) {pre : List Char} {regions : List Region}
    {held : List (List Span)} :
    Revised replaces none (Text.lastOr none pre) (Piece.paint regions)
      (Piece.paint (convertFrom style (pre ++ Piece.join regions) pre.length regions held)) := by
  induction regions generalizing pre held with
  | nil => exact .nil
  | cons region regions ih =>
      have rest := @ih (pre ++ region.text) held.tail
      rw [Text.lastOr_append, List.length_append, List.append_assoc, ← Piece.join_cons] at rest
      rw [convertFrom, Piece.paint_append, Piece.paint_eq_append region regions]
      refine .append ?_ (by simpa using rest)
      split
      next free =>
        rw [Painted.paint_of_isOutside free, Painted.text_paint, Piece.join_cons]
        exact revised_convertText covers _ _ _ _
      next => exact .refl _ _

theorem passes_convert {stage : Stage} {style : Style} (covers : Covers style stage.Replaces)
    (regions : List Region) : stage.Passes regions (convert style regions) := by
  refine ⟨Piece.isFused_fuse _, ?_⟩
  rw [convert, Piece.paint_fuse]
  exact @revised_convertFrom _ _ covers [] regions _

end PlainBrackets

namespace Stage

theorem passes_run (stage : Stage) {regions : List Region} (fused : Piece.IsFused regions) :
    Relation.ReflTransGen stage.Passes regions (stage.run regions) := by
  cases stage with
  | delimiters => exact Delimiters.passes_normalize fused
  | environments => exact .single (Environments.passes_wrap fused)
  | formulaLines => exact .single (FormulaLines.passes_promote fused)
  | squares => exact .single (PlainBrackets.passes_convert PlainBrackets.covers_squares regions)
  | parens => exact .single (PlainBrackets.passes_convert PlainBrackets.covers_parens regions)
  | bareTokens => exact BareTokens.passes_wrap fused
  | blankLines => exact .single (BlankLines.passes_normalize fused)

theorem isFused_run (stage : Stage) {regions : List Region} (fused : Piece.IsFused regions) :
    Piece.IsFused (stage.run regions) := by
  cases Relation.ReflTransGen.cases_tail (stage.passes_run fused) with
  | inl same => rwa [same]
  | inr last =>
      obtain ⟨_, _, pass⟩ := last
      exact pass.fused

theorem preserved_run {stage : Stage} {motive : Painted → Prop}
    (step : ∀ old new, Revised stage.Replaces none none old new → motive old → motive new)
    {regions : List Region} (fused : Piece.IsFused regions) (start : motive (Piece.paint regions)) :
    motive (Piece.paint (stage.run regions)) := by
  have passes := stage.passes_run fused
  generalize stage.run regions = result at passes ⊢
  induction passes with
  | refl => exact start
  | tail _ pass ih => exact step _ _ pass.revised ih

end Stage

theorem preserved_foldl {stages : List Stage} {motive : Painted → Prop} {regions : List Region}
    (step : ∀ stage ∈ stages, ∀ old new,
      Revised stage.Replaces none none old new → motive old → motive new)
    (fused : Piece.IsFused regions) (start : motive (Piece.paint regions)) :
    Piece.IsFused (stages.foldl (fun regions stage => stage.run regions) regions) ∧
      motive (Piece.paint (stages.foldl (fun regions stage => stage.run regions) regions)) := by
  induction stages generalizing regions with
  | nil => exact ⟨fused, start⟩
  | cons stage stages ih =>
      refine ih (fun other member => step other (List.mem_cons_of_mem _ member))
        (stage.isFused_run fused) ?_
      exact Stage.preserved_run (step stage (by simp)) fused start

theorem isFused_convertedRegions (options : Options) (text : List Char) :
    Piece.IsFused (convertedRegions options text) :=
  (preserved_foldl (motive := fun _ => True) (fun _ _ _ _ _ _ => trivial)
    (Piece.isFused_fuse _) trivial).1

theorem preserved_convertedRegions {options : Options} {motive : Painted → Prop} {text : List Char}
    (step : ∀ stage : Stage, stage.isEnabled options = true → ∀ old new,
      Revised stage.Replaces none none old new → motive old → motive new)
    (start : motive (Piece.paint (Document.regions text))) :
    motive (Piece.paint (convertedRegions options text)) :=
  (preserved_foldl (fun stage member => step stage (List.mem_filter.mp member).2)
    (Piece.isFused_fuse _) start).2

end DollarMath
