import DollarMath.Proofs.Conversion.Passes
import DollarMath.Proofs.Region.Straddle

/-!
The edits of whole lines, where a block of code lies on some of the lines. None of these lines is
edited, and what the lines above and below see of them does not depend on the block, unless it
shares its only line with display math.
-/

namespace DollarMath

namespace Line.Straddles

variable {part feed : List Fragment} {onLine : Bool} {lines : List Line}

theorem codes (straddles : Straddles part feed onLine lines) :
    ∀ line ∈ lines, ∃ fragment ∈ line.fragments, fragment.kind = .code := by
  intro line member
  cases straddles with
  | @single code fence =>
      rw [List.mem_singleton.mp member]
      exact ⟨code, by simp, fence.isCode⟩
  | @several first last inner fence codes tick =>
      rcases List.mem_cons.mp member with rfl | later
      · exact ⟨first, by simp, fence.isCode⟩
      · rcases List.mem_append.mp later with inInner | final
        · obtain ⟨fragment, isInner, rfl⟩ := List.mem_map.mp inInner
          exact ⟨fragment, by simp, codes fragment isInner⟩
        · rw [List.mem_singleton.mp final]
          exact ⟨last, by simp, tick.isCode⟩

theorem head (straddles : Straddles part feed onLine lines) :
    ∃ first tail rest, lines = ⟨part ++ first :: tail⟩ :: rest ∧ first.IsFence ∧ tail ⊆ feed := by
  cases straddles with
  | single fence => exact ⟨_, feed, [], rfl, fence, List.Subset.refl _⟩
  | several fence _ _ => exact ⟨_, [], _, rfl, fence, List.nil_subset _⟩

theorem last (straddles : Straddles part feed onLine lines) :
    ∃ init front last, lines = init ++ [⟨front ++ last :: feed⟩] ∧ last.IsTick ∧
      front = if onLine then part else [] := by
  cases straddles with
  | single fence => exact ⟨[], part, _, rfl, fence.isTick, rfl⟩
  | @several first last inner _ _ tick =>
      exact ⟨⟨part ++ [first]⟩ :: inner.map fun fragment => ⟨[fragment]⟩, [], last, by simp, tick,
        rfl⟩

end Line.Straddles

namespace Line

variable {line : Line}

theorem mem_text {fragment : Fragment} {char : Char} (inLine : fragment ∈ line.fragments)
    (member : char ∈ fragment.text) : char ∈ line.text :=
  List.mem_flatMap.mpr ⟨fragment, inLine, member⟩

theorem isBlank_of_tick {fragment : Fragment} (inLine : fragment ∈ line.fragments)
    (tick : fragment.IsTick) : line.isBlank = false :=
  List.all_eq_false.mpr ⟨'\x60', mem_text inLine tick.holds, by decide⟩

theorem isDisplay_of_tick {fragment : Fragment} (inLine : fragment ∈ line.fragments)
    (tick : fragment.IsTick) : line.isDisplay = line.fragments.any (·.kind == .display) := by
  have held := Text.mem_strip (mem_text inLine tick.holds) (by decide)
  have other : (Text.strip line.content == ['$', '$']) = false := by
    rw [content, Text.strip_lineBody, beq_eq_false_iff_ne]
    intro same
    rw [same] at held
    exact absurd held (by decide)
  rw [isDisplay, other, Bool.false_or]

theorem isOutside_of_code {fragment : Fragment} (inLine : fragment ∈ line.fragments)
    (isCode : fragment.kind = .code) : line.isOutside = false :=
  List.all_eq_false.mpr ⟨fragment, inLine, by simp [isCode]⟩

theorem soleFragment?_of_code {fragment : Fragment} (inLine : fragment ∈ line.fragments)
    (isCode : fragment.kind = .code) : line.soleFragment? .outside = none := by
  unfold soleFragment?
  split
  next other sole =>
    rw [sole, List.mem_singleton] at inLine
    subst inLine
    simp [isCode]
  next => rfl

end Line

namespace BlankLines

theorem startsWithDollars_strip {indent : List Char}
    (isIndented : ∀ char ∈ indent, Text.isIndent char = true) (text rest : List Char) :
    startsWithDollars (Text.strip (text ++ (indent ++ '\x60' :: rest))) =
      startsWithDollars (Text.stripLeft text) := by
  have blank : ∀ char ∈ indent, Text.isBlank char = true :=
    fun char member => Text.isBlank_of_isIndent (isIndented char member)
  rw [Text.strip, Text.stripLeft, List.dropWhile_append]
  split
  next empty =>
    -- The text is blank, so the line starts with the backtick.
    have stopped : ('\x60' :: rest).dropWhile Text.isBlank = '\x60' :: rest :=
      List.dropWhile_cons_of_neg (by decide)
    rw [List.dropWhile_append_of_pos blank, stopped, ← List.nil_append ('\x60' :: rest),
      Text.stripRight_append_cons [] (by decide), Text.stripLeft, List.isEmpty_iff.mp empty]
    rfl
  next =>
    rw [← List.append_assoc, Text.stripRight_append_cons _ (by decide), Text.stripLeft]
    have notDollar {char : Char} (member : char ∈ indent) : char ≠ '$' := by
      rintro rfl
      exact absurd (isIndented _ member) (by decide)
    rcases text.dropWhile Text.isBlank with _ | ⟨first, _ | ⟨second, others⟩⟩
    · cases indent with
      | nil => rfl
      | cons char indent =>
          simp [startsWithDollars, List.isPrefixOf, (notDollar List.mem_cons_self).symm]
    · cases indent with
      | nil => simp [startsWithDollars, List.isPrefixOf]
      | cons char indent =>
          simp [startsWithDollars, List.isPrefixOf, (notDollar List.mem_cons_self).symm]
    · simp [startsWithDollars, List.isPrefixOf]

/-- Whether the first line of a block opens display math is a matter of the text before it. -/
theorem opensDisplay_of_fence {part tail : List Fragment} {first : Fragment}
    (fence : first.IsFence) : opensDisplay ⟨part ++ first :: tail⟩ =
      ((part.find? Fragment.isVisible).any (·.kind == .display) &&
        startsWithDollars (Text.stripLeft (part.flatMap Fragment.text))) := by
  obtain ⟨indent, rest, textEq, isIndented⟩ := fence.starts
  have visible : Line.firstVisible? ⟨part ++ first :: tail⟩ =
      (part.find? Fragment.isVisible).or (some first) := by
    rw [Line.firstVisible?, List.find?_append, List.find?_cons_of_pos fence.isTick.isVisible]
  have stripped : Text.strip (Line.content ⟨part ++ first :: tail⟩) =
      Text.strip (part.flatMap Fragment.text ++
        (indent ++ '\x60' :: (rest ++ tail.flatMap Fragment.text))) := by
    rw [Line.content, Text.strip_lineBody, Line.text]
    simp [textEq]
  rw [opensDisplay, visible, stripped, startsWithDollars_strip isIndented]
  cases part.find? Fragment.isVisible with
  | none => simp [fence.isCode]
  | some fragment => rfl

theorem closesDisplay_of_tick {front feed : List Fragment} {last : Fragment} (tick : last.IsTick)
    (feeds : ∀ fragment ∈ feed, fragment.text = ['\n']) :
    closesDisplay ⟨front ++ last :: feed⟩ = false := by
  have hidden : feed.reverse.find? Fragment.isVisible = none := by
    rw [List.find?_eq_none]
    intro fragment member
    rw [Fragment.isVisible, feeds fragment (List.mem_reverse.mp member)]
    decide
  have visible : Line.lastVisible? ⟨front ++ last :: feed⟩ = some last := by
    rw [Line.lastVisible?, List.reverse_append, List.reverse_cons, List.append_assoc,
      List.find?_append, hidden, Option.none_or, List.singleton_append,
      List.find?_cons_of_pos tick.isVisible]
  simp [closesDisplay, visible, tick.isCode]

theorem editsFrom_congr {first second : List Line}
    (same : ∀ previous, editsFrom previous first = editsFrom previous second)
    (opens : first.head?.any opensDisplay = second.head?.any opensDisplay)
    (blank : first.head?.any Line.isBlank = second.head?.any Line.isBlank)
    (above : List Line) (previous : Option Line) :
    editsFrom previous (above ++ first) = editsFrom previous (above ++ second) := by
  induction above generalizing previous with
  | nil => exact same previous
  | cons line above ih =>
      rw [List.cons_append, List.cons_append, editsFrom, editsFrom, ih]
      congr 1
      cases above with
      | nil =>
          have dropped : isDropped previous line first.head? =
              isDropped previous line second.head? := by
            unfold isDropped isLoneBlank
            rw [opens, blank]
          simp only [List.nil_append, dropped]
      | cons next above => rfl

/-- Lines with code on them are not edited, and the text below a block starts as a document does. -/
theorem editsFrom_straddle {part feed : List Fragment} {onLine : Bool} {lines : List Line}
    (straddles : Line.Straddles part feed onLine lines)
    (feeds : ∀ fragment ∈ feed, fragment.text = ['\n']) (below : List Line)
    (previous : Option Line) :
    editsFrom previous (lines ++ below) = editsFrom none below := by
  have skip : ∀ previous, editsFrom previous (lines ++ below) =
      editsFrom (lines.getLast?.or previous) below := by
    have codes := straddles.codes
    clear straddles
    induction lines with
    | nil => exact fun _ => rfl
    | cons line lines ih =>
        intro previous
        obtain ⟨fragment, inLine, isCode⟩ := codes line (by simp)
        have free := Line.isOutside_of_code inLine isCode
        rw [List.cons_append, editsFrom, ih fun other member => codes other (by simp [member])]
        have kept : isDropped previous line (lines ++ below).head? = false := by
          simp [isDropped, isLoneBlank, free]
        rw [kept, List.getLast?_cons]
        cases lines.getLast? <;> rfl
  obtain ⟨init, front, last, linesEq, tick, _⟩ := straddles.last
  rw [skip, linesEq, List.getLast?_concat, Option.some_or]
  cases below with
  | nil => rfl
  | cons line below =>
      have dropped : isDropped (some ⟨front ++ last :: feed⟩) line below.head? =
          isDropped none line below.head? := by
        have blank := @Line.isBlank_of_tick ⟨front ++ last :: feed⟩ last (by simp) tick
        simp [isDropped, isLoneBlank, closesDisplay_of_tick tick feeds, blank]
      rw [editsFrom, editsFrom, dropped]

theorem editsFrom_around {part feed : List Fragment} {onLine onLine' : Bool}
    {lines lines' : List Line} (straddles : Line.Straddles part feed onLine lines)
    (straddles' : Line.Straddles part feed onLine' lines')
    (feeds : ∀ fragment ∈ feed, fragment.text = ['\n']) (above below : List Line) :
    editsFrom none (above ++ (lines ++ below)) = editsFrom none (above ++ (lines' ++ below)) := by
  obtain ⟨first, tail, rest, rfl, fence, _⟩ := straddles.head
  obtain ⟨first', tail', rest', rfl, fence', _⟩ := straddles'.head
  refine editsFrom_congr (fun previous => ?_) ?_ ?_ above none
  · rw [editsFrom_straddle straddles feeds, editsFrom_straddle straddles' feeds]
  · simp only [List.cons_append, List.head?_cons, Option.any_some, opensDisplay_of_fence fence,
      opensDisplay_of_fence fence']
  · have blank := @Line.isBlank_of_tick ⟨part ++ first :: tail⟩ first (by simp) fence.isTick
    have blank' := @Line.isBlank_of_tick ⟨part ++ first' :: tail'⟩ first' (by simp) fence'.isTick
    simp [blank, blank']

end BlankLines

namespace FormulaLines

theorem editsFrom_congr {newline : List Char} {first second : List Line}
    (same : ∀ above, editsFrom newline above first = editsFrom newline above second)
    (display : first.head?.any Line.isDisplay = second.head?.any Line.isDisplay)
    (lines : List Line) (above : Bool) :
    editsFrom newline above (lines ++ first) = editsFrom newline above (lines ++ second) := by
  induction lines generalizing above with
  | nil => exact same above
  | cons line lines ih =>
      rw [List.cons_append, List.cons_append, editsFrom, editsFrom, ih]
      congr 1
      cases lines with
      | nil => simp only [List.nil_append, display]
      | cons next lines => rfl

theorem editsFrom_straddle {newline : List Char} {part feed : List Fragment} {onLine : Bool}
    {lines : List Line} (straddles : Line.Straddles part feed onLine lines)
    (feeds : ∀ fragment ∈ feed, fragment.kind ≠ .display) (below : List Line) (above : Bool) :
    editsFrom newline above (lines ++ below) =
      editsFrom newline ((if onLine then part else []).any (·.kind == .display)) below := by
  have skip : ∀ above, editsFrom newline above (lines ++ below) =
      editsFrom newline (lines.getLast?.elim above Line.isDisplay) below := by
    have codes := straddles.codes
    clear straddles
    induction lines with
    | nil => exact fun _ => rfl
    | cons line lines ih =>
        intro above
        obtain ⟨fragment, inLine, isCode⟩ := codes line (by simp)
        have unedited : edit? newline line = none := by
          rw [edit?, Line.soleFragment?_of_code inLine isCode]
          rfl
        rw [List.cons_append, editsFrom, ih fun other member => codes other (by simp [member]),
          unedited, List.getLast?_cons]
        cases lines.getLast? <;> simp
  obtain ⟨init, front, last, linesEq, tick, frontEq⟩ := straddles.last
  have display := @Line.isDisplay_of_tick ⟨front ++ last :: feed⟩ last (by simp) tick
  have feedFree : feed.any (·.kind == .display) = false := by
    rw [List.any_eq_false]
    intro fragment member
    simpa using feeds fragment member
  have codeFree : (last.kind == .display) = false := by
    rw [tick.isCode]
    rfl
  rw [skip, linesEq, List.getLast?_concat, Option.elim_some, display, ← frontEq]
  simp [codeFree, feedFree]

theorem editsFrom_around {newline : List Char} {part feed : List Fragment} {onLine onLine' : Bool}
    {lines lines' : List Line} (straddles : Line.Straddles part feed onLine lines)
    (straddles' : Line.Straddles part feed onLine' lines')
    (feeds : ∀ fragment ∈ feed, fragment.kind ≠ .display)
    (level : onLine = onLine' ∨ part = []) (above below : List Line) :
    editsFrom newline false (above ++ (lines ++ below)) =
      editsFrom newline false (above ++ (lines' ++ below)) := by
  have same : (if onLine then part else []) = if onLine' then part else [] := by
    rcases level with rfl | rfl
    · rfl
    · simp
  have opening {first : Fragment} {tail : List Fragment} (fence : first.IsFence)
      (inFeed : tail ⊆ feed) : Line.isDisplay ⟨part ++ first :: tail⟩ =
        part.any (·.kind == .display) := by
    have display := @Line.isDisplay_of_tick ⟨part ++ first :: tail⟩ first (by simp) fence.isTick
    have tailFree : tail.any (·.kind == .display) = false := by
      rw [List.any_eq_false]
      intro fragment member
      simpa using feeds fragment (inFeed member)
    have codeFree : (first.kind == .display) = false := by
      rw [fence.isCode]
      rfl
    rw [display]
    simp [codeFree, tailFree]
  obtain ⟨first, tail, rest, rfl, fence, inFeed⟩ := straddles.head
  obtain ⟨first', tail', rest', rfl, fence', inFeed'⟩ := straddles'.head
  refine editsFrom_congr (fun previous => ?_) ?_ above false
  · rw [editsFrom_straddle straddles feeds, editsFrom_straddle straddles' feeds, same]
  · simp only [List.cons_append, List.head?_cons, Option.any_some, opening fence inFeed,
      opening fence' inFeed']

end FormulaLines

end DollarMath
