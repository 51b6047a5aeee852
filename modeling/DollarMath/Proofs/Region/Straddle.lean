import DollarMath.Proofs.Document.LineCuts

/-!
The physical lines that a block of code lies on. The text before and after the block can share its
first and its last line; the lines above and below do not depend on the block.
-/

namespace DollarMath

namespace Fragment

theorem ofLines_append (index offset : Nat) (kind : RegionKind) (first second : List (List Char)) :
    ofLines index kind offset (first ++ second) = ofLines index kind offset first ++
      ofLines index kind (offset + first.flatten.length) second := by
  induction first generalizing offset with
  | nil => rfl
  | cons line first ih => simp [ofLines, ih, Nat.add_assoc]

theorem ofRegions_append (index : Nat) (front back : List Region) :
    ofRegions index (front ++ back) =
      ofRegions index front ++ ofRegions (index + front.length) back := by
  induction front generalizing index with
  | nil => rfl
  | cons region front ih =>
      rw [List.cons_append, ofRegions, ofRegions, ih, List.append_assoc, List.length_cons,
        Nat.add_assoc, Nat.add_comm 1]

theorem index_ofRegions {index : Nat} {regions : List Region} {fragment : Fragment}
    (member : fragment ∈ ofRegions index regions) :
    index ≤ fragment.index ∧ fragment.index < index + regions.length ∧ fragment.text ≠ [] := by
  obtain ⟨front, back, split⟩ := List.append_of_mem member
  obtain ⟨before, _, region, _, after, rfl, indexEq, lies⟩ := ofRegions_split split
  refine ⟨by omega, ?_, lies.nonempty⟩
  rw [indexEq, List.length_append, List.length_cons]
  omega

structure IsFence (fragment : Fragment) : Prop where
  isCode : fragment.kind = .code
  starts : ∃ indent rest, fragment.text = indent ++ '\x60' :: rest ∧
    ∀ char ∈ indent, Text.isIndent char = true

structure IsTick (fragment : Fragment) : Prop where
  isCode : fragment.kind = .code
  holds : '\x60' ∈ fragment.text

theorem IsFence.isTick {fragment : Fragment} (fence : fragment.IsFence) : fragment.IsTick := by
  obtain ⟨indent, rest, textEq, _⟩ := fence.starts
  exact ⟨fence.isCode, by simp [textEq]⟩

theorem IsTick.isVisible {fragment : Fragment} (tick : fragment.IsTick) :
    fragment.isVisible = true := by
  have blank : Text.allBlank fragment.text = false :=
    List.all_eq_false.mpr ⟨'\x60', tick.holds, by decide⟩
  rw [Fragment.isVisible, blank]
  rfl

end Fragment

namespace Line

theorem group_line {front : List Fragment} {last : Fragment}
    (goesOn : ∀ fragment ∈ front, fragment.endsLine = false) (ends : last.endsLine = true)
    (rest : List Fragment) : group (front ++ last :: rest) = ⟨front ++ [last]⟩ :: group rest := by
  induction front with
  | nil => rw [List.nil_append, group, if_pos ends, List.nil_append]
  | cons fragment front ih =>
      have own := goesOn fragment (by simp)
      rw [List.cons_append, group, if_neg (by simp [own]),
        ih fun other member => goesOn other (by simp [member])]
      rfl

theorem group_rest {front : List Fragment} (filled : front ≠ [])
    (goesOn : ∀ fragment ∈ front, fragment.endsLine = false) : group front = [⟨front⟩] := by
  induction front with
  | nil => exact absurd rfl filled
  | cons fragment front ih =>
      have own := goesOn fragment (by simp)
      rw [group, if_neg (by simp [own])]
      by_cases last : front = []
      · rw [last]
        rfl
      · rw [ih last fun other member => goesOn other (by simp [member])]
        rfl

theorem group_lines {front : List Fragment} (ends : ∀ fragment ∈ front, fragment.endsLine = true)
    (rest : List Fragment) :
    group (front ++ rest) = front.map (fun fragment => ⟨[fragment]⟩) ++ group rest := by
  induction front with
  | nil => rfl
  | cons fragment front ih =>
      rw [List.cons_append, group, if_pos (ends fragment (by simp)),
        ih fun other member => ends other (by simp [member])]
      rfl

theorem exists_group (all : List Fragment) :
    ∃ above part, all = above.flatMap fragments ++ part ∧
      (∀ fragment ∈ part, fragment.endsLine = false) ∧
      ∀ rest, group (all ++ rest) = above ++ group (part ++ rest) := by
  induction all with
  | nil => exact ⟨[], [], rfl, by simp, fun _ => rfl⟩
  | cons fragment all ih =>
      obtain ⟨above, part, rfl, goesOn, grouped⟩ := ih
      by_cases ends : fragment.endsLine = true
      · refine ⟨⟨[fragment]⟩ :: above, part, by simp, goesOn, fun rest => ?_⟩
        rw [List.cons_append, group, if_pos ends, grouped]
        rfl
      · cases above with
        | nil =>
            refine ⟨[], fragment :: part, by simp, ?_, fun _ => rfl⟩
            intro other member
            rcases List.mem_cons.mp member with rfl | inPart
            · simpa using ends
            · exact goesOn other inPart
        | cons line above =>
            refine ⟨⟨fragment :: line.fragments⟩ :: above, part, by simp, goesOn, fun rest => ?_⟩
            rw [List.cons_append, group, if_neg ends, grouped]
            rfl

end Line

namespace Text

theorem noFeed_of_isIndent {indent : List Char}
    (isIndented : ∀ char ∈ indent, isIndent char = true) : '\n' ∉ '\x60' :: indent := by
  intro member
  rcases List.mem_cons.mp member with same | inIndent
  · exact absurd same (by decide)
  · exact absurd (isIndented _ inIndent) (by decide)

theorem tick_of_first {indent after line rest : List Char}
    (isIndented : ∀ char ∈ indent, isIndent char = true)
    (same : indent ++ '\x60' :: after = line ++ '\n' :: rest) :
    ∃ more, line = indent ++ '\x60' :: more := by
  rcases List.append_eq_append_iff.mp same with ⟨more, lineEq, tailEq⟩ | ⟨more, indentEq, tailEq⟩
  · cases more with
    | nil => simp at tailEq
    | cons char more =>
        simp only [List.cons_append, List.cons.injEq] at tailEq
        exact ⟨more, by rw [lineEq, tailEq.1]⟩
  · cases more with
    | nil => simp at tailEq
    | cons char more =>
        simp only [List.cons_append, List.cons.injEq] at tailEq
        have noFeed := noFeed_of_isIndent isIndented
        simp [indentEq, ← tailEq.1] at noFeed

theorem tick_of_last {before indent front last : List Char}
    (isIndented : ∀ char ∈ indent, isIndent char = true) (feed : front.getLast? = some '\n')
    (same : front ++ last = before ++ '\x60' :: indent) : '\x60' ∈ last := by
  rcases List.append_eq_append_iff.mp same with ⟨more, _, lastEq⟩ | ⟨more, frontEq, tailEq⟩
  · simp [lastEq]
  · by_cases none : more = []
    · rw [none, List.nil_append] at tailEq
      simp [← tailEq]
    · rw [frontEq, List.getLast?_append_of_ne_nil _ none] at feed
      have inTail : '\n' ∈ '\x60' :: indent := by
        rw [tailEq]
        exact List.mem_append_left _ (List.mem_of_getLast? feed)
      exact absurd inTail (noFeed_of_isIndent isIndented)

theorem physicalLines_unended {text : List Char} (feed : '\n' ∈ text)
    (unended : text.getLast? ≠ some '\n') : ∃ line inner last,
    physicalLines text = (line ++ ['\n']) :: (inner ++ [last]) ∧
      (∀ above ∈ (line ++ ['\n']) :: inner, above.getLast? = some '\n') ∧ '\n' ∉ last ∧
      ∃ rest, text = line ++ '\n' :: rest := by
  obtain ⟨line, rest, textEq, free⟩ := List.eq_append_cons_of_mem feed
  have filled : physicalLines rest ≠ [] := by
    intro isNil
    have empty := flatten_physicalLines rest
    rw [isNil, List.flatten_nil] at empty
    exact unended (by rw [textEq, ← empty, List.getLast?_concat])
  obtain ⟨inner, last, innerEq⟩ := (List.eq_nil_or_concat' (physicalLines rest)).resolve_left filled
  have linesEq := physicalLines_feed free rest
  rw [← textEq, innerEq] at linesEq
  refine ⟨line, inner, last, linesEq, ?_, ?_, rest, textEq⟩
  · intro above member
    obtain ⟨left, right, split⟩ := List.append_of_mem member
    have whole : physicalLines text = left ++ above :: (right ++ [last]) := by
      rw [linesEq, ← List.cons_append, split]
      simp
    rcases physicalLines_shape whole with ⟨body, rfl, _⟩ | ⟨_, isNil⟩
    · exact List.getLast?_concat
    · simp at isNil
  · have joined := flatten_physicalLines text
    rw [linesEq, ← List.cons_append, List.flatten_append, List.flatten_singleton] at joined
    rcases @physicalLines_shape _ last ((line ++ ['\n']) :: inner) [] linesEq with
      ⟨body, rfl, _⟩ | ⟨free, _⟩
    · exact absurd (by rw [← joined, ← List.append_assoc, List.getLast?_concat]) unended
    · exact free

theorem physicalLines_fenced {block : List Char} (fenced : Fence.IsFenced block)
    (feed : '\n' ∈ block) : ∃ first inner last, physicalLines block = first :: (inner ++ [last]) ∧
      (∀ line ∈ first :: inner, line.getLast? = some '\n') ∧ '\n' ∉ last ∧ '\x60' ∈ last ∧
      ∃ indent rest, first = indent ++ '\x60' :: rest ∧
        ∀ char ∈ indent, isIndent char = true := by
  have unended : block.getLast? ≠ some '\n' := by
    obtain ⟨final, finalEq, fence⟩ := fenced.getLast
    rw [finalEq]
    intro same
    rw [Option.some.inj same] at fence
    exact absurd fence (by decide)
  obtain ⟨line, inner, last, linesEq, ends, free, rest, blockEq⟩ :=
    physicalLines_unended feed unended
  refine ⟨line ++ ['\n'], inner, last, linesEq, ends, free, ?_, ?_⟩
  · have joined := flatten_physicalLines block
    rw [linesEq, ← List.cons_append, List.flatten_append, List.flatten_singleton] at joined
    obtain ⟨before, indent, endEq, isIndented⟩ := fenced.ends
    obtain ⟨init, above, split⟩ :=
      (List.eq_nil_or_concat' ((line ++ ['\n']) :: inner)).resolve_left (by simp)
    have aboveEnds := ends above (by simp [split])
    have aboveFilled : above ≠ [] := by
      rintro rfl
      simp at aboveEnds
    refine tick_of_last isIndented ?_ (joined.trans endEq)
    rw [split, getLast?_flatten_concat aboveFilled, aboveEnds]
  · obtain ⟨indent, after, startEq, isIndented⟩ := fenced.starts
    obtain ⟨more, rfl⟩ := tick_of_first isIndented (startEq.symm.trans blockEq)
    exact ⟨indent, more ++ ['\n'], by simp, isIndented⟩

end Text

namespace Line

/-- The lines that a block of code lies on, on one line or on several: the first one starts with
`part`, and the last one ends with `feed`. -/
inductive Straddles (part feed : List Fragment) : (onLine : Bool) → List Line → Prop
  | single {code : Fragment} : code.IsFence → Straddles part feed true [⟨part ++ code :: feed⟩]
  | several {first last : Fragment} {inner : List Fragment} : first.IsFence →
      (∀ fragment ∈ inner, fragment.kind = .code) → last.IsTick → Straddles part feed false
        (⟨part ++ [first]⟩ :: (inner.map (fun fragment => ⟨[fragment]⟩) ++ [⟨last :: feed⟩]))

structure IsFeed (index : Nat) (fragment : Fragment) : Prop where
  textEq : fragment.text = ['\n']
  spanEq : fragment.span = ⟨0, 1⟩
  indexEq : fragment.index = index
  notDisplay : fragment.kind ≠ .display

/-- How the regions before and after a block of code lie on lines: whole lines above the block, part
of the line that it starts on, the line feed after it, and whole lines below. -/
structure Borders (front back : List Region) (above : List Line) (part feed : List Fragment)
    (below : List Line) : Prop where
  frontEq : Fragment.ofRegions 0 front = above.flatMap fragments ++ part
  goesOn : ∀ fragment ∈ part, fragment.endsLine = false
  backEq : Fragment.ofRegions (front.length + 1) back = feed ++ below.flatMap fragments
  feeds : ∀ fragment ∈ feed, IsFeed (front.length + 1) fragment
  single : (feed = [] ∧ below = []) ∨ ∃ fragment, feed = [fragment]
  grouped : ∀ rest, group (Fragment.ofRegions 0 front ++
    (rest ++ Fragment.ofRegions (front.length + 1) back)) =
      above ++ (group (part ++ (rest ++ feed)) ++ below)

theorem group_ended {last : Fragment} (ends : last.endsLine = true) (front rest : List Fragment) :
    group (front ++ last :: rest) = group (front ++ [last]) ++ group rest := by
  obtain ⟨above, part, _, goesOn, grouped⟩ := exists_group front
  rw [grouped, grouped, group_line goesOn ends, group_line goesOn ends]
  simp [group]

theorem exists_borders (front : List Region) {back : List Region}
    (follows : ∀ region, back.head? = some region →
      region.text.head? = some '\n' ∧ region.kind ≠ .display) :
    ∃ above part feed below, Borders front back above part feed below := by
  obtain ⟨above, part, frontEq, goesOn, grouped⟩ := exists_group (Fragment.ofRegions 0 front)
  cases back with
  | nil =>
      refine ⟨above, part, [], [], frontEq, goesOn, rfl, by simp, .inl ⟨rfl, rfl⟩, fun rest => ?_⟩
      rw [Fragment.ofRegions, grouped, List.append_nil (group _)]
  | cons region back =>
      obtain ⟨kind, text⟩ := region
      obtain ⟨starts, notDisplay⟩ := follows ⟨kind, text⟩ rfl
      obtain ⟨text, rfl⟩ := List.head?_eq_some_iff.mp starts
      have backEq : Fragment.ofRegions (front.length + 1) (⟨kind, '\n' :: text⟩ :: back) =
          ⟨front.length + 1, ⟨0, 1⟩, kind, ['\n']⟩ ::
            (Fragment.ofLines (front.length + 1) kind 1 (Text.physicalLines text) ++
              Fragment.ofRegions (front.length + 1 + 1) back) := by
        rw [Fragment.ofRegions, Fragment.ofRegion, Text.physicalLines, if_pos rfl]
        rfl
      generalize Fragment.ofLines (front.length + 1) kind 1 (Text.physicalLines text) ++
        Fragment.ofRegions (front.length + 1 + 1) back = others at backEq
      refine ⟨above, part, [⟨front.length + 1, ⟨0, 1⟩, kind, ['\n']⟩], group others, frontEq, goesOn,
        by simp [backEq], ?_, .inr ⟨_, rfl⟩, fun rest => ?_⟩
      · intro fragment member
        rw [List.mem_singleton.mp member]
        exact ⟨rfl, rfl, rfl, notDisplay⟩
      · rw [backEq, grouped, ← List.append_assoc part, group_ended rfl, List.append_assoc]

theorem group_feed {start feed : List Fragment} (filled : start ≠ [])
    (goesOn : ∀ fragment ∈ start, fragment.endsLine = false)
    (single : feed = [] ∨ ∃ fragment, feed = [fragment] ∧ fragment.endsLine = true) :
    group (start ++ feed) = [⟨start ++ feed⟩] := by
  rcases single with rfl | ⟨fragment, rfl, ends⟩
  · rw [List.append_nil]
    exact group_rest filled goesOn
  · rw [group_line goesOn ends, group]

theorem endsLine_ofLines {index offset : Nat} {kind : RegionKind} {lines : List (List Char)}
    (ends : ∀ line ∈ lines, line.getLast? = some '\n') :
    ∀ fragment ∈ Fragment.ofLines index kind offset lines,
      fragment.endsLine = true ∧ fragment.kind = kind := by
  intro fragment member
  obtain ⟨front, back, split⟩ := List.append_of_mem member
  obtain ⟨_, _, linesEq, _, kindEq, _⟩ := Fragment.ofLines_split split
  exact ⟨by simp [Fragment.endsLine, ends fragment.text (by simp [linesEq])], kindEq⟩

theorem straddles_group {part feed : List Fragment} {index : Nat} {block : List Char}
    (fenced : Fence.IsFenced block) (goesOn : ∀ fragment ∈ part, fragment.endsLine = false)
    (single : feed = [] ∨ ∃ fragment, feed = [fragment] ∧ fragment.endsLine = true) :
    Straddles part feed (!block.contains '\n')
      (group (part ++ (Fragment.ofRegion index (Region.code block) ++ feed))) := by
  have linesOf : Fragment.ofRegion index (Region.code block) =
      Fragment.ofLines index .code 0 (Text.physicalLines block) := rfl
  have free {fragment : Fragment} (noFeed : '\n' ∉ fragment.text) : fragment.endsLine = false := by
    rw [Fragment.endsLine, beq_eq_false_iff_ne]
    exact fun last => noFeed (List.mem_of_getLast? last)
  by_cases fed : '\n' ∈ block
  · obtain ⟨first, inner, final, linesEq, ends, noFeed, holds, starts⟩ :=
      Text.physicalLines_fenced fenced fed
    have onLines : (!block.contains '\n') = false := by simpa using fed
    have firstEnds : first.getLast? = some '\n' := ends first (by simp)
    have innerEnds := @endsLine_ofLines index (0 + first.length) .code inner
      fun line member => ends line (by simp [member])
    rw [onLines, linesOf, linesEq, Fragment.ofLines, Fragment.ofLines_append, List.cons_append,
      List.append_assoc, group_line goesOn (by simp [Fragment.endsLine, firstEnds]),
      group_lines fun fragment member => (innerEnds fragment member).1]
    simp only [Fragment.ofLines]
    rw [group_feed (by simp) (by simpa using free noFeed) single]
    exact .several ⟨rfl, starts⟩ (fun fragment member => (innerEnds fragment member).2)
      ⟨rfl, holds⟩
  · have onLine : (!block.contains '\n') = true := by simpa using fed
    rw [onLine, linesOf, Text.physicalLines_of_free fenced.ne_nil fed, ← List.append_assoc,
      group_feed (by simp [Fragment.ofLines]) ?_ single, List.append_assoc]
    · exact .single ⟨rfl, fenced.starts⟩
    · intro fragment member
      rcases List.mem_append.mp member with inPart | inBlock
      · exact goesOn fragment inPart
      · rw [List.mem_singleton.mp inBlock]
        exact free fed

/-- A block of code changes only the lines that it lies on. -/
theorem Borders.ofRegions_code {front back : List Region} {above below : List Line}
    {part feed : List Fragment} (borders : Borders front back above part feed below)
    {block : List Char} (fenced : Fence.IsFenced block) :
    ∃ lines, ofRegions (front ++ Region.code block :: back) = above ++ (lines ++ below) ∧
      Straddles part feed (!block.contains '\n') lines := by
  have whole : Fragment.ofRegions 0 (front ++ Region.code block :: back) =
      Fragment.ofRegions 0 front ++ (Fragment.ofRegion front.length (Region.code block) ++
        Fragment.ofRegions (front.length + 1) back) := by
    rw [Fragment.ofRegions_append, Fragment.ofRegions, Nat.zero_add]
  refine ⟨_, by rw [ofRegions, whole, borders.grouped], straddles_group fenced borders.goesOn ?_⟩
  rcases borders.single with ⟨isNil, _⟩ | ⟨fragment, feedEq⟩
  · exact .inl isNil
  · refine .inr ⟨fragment, feedEq, ?_⟩
    rw [Fragment.endsLine, (borders.feeds fragment (by simp [feedEq])).textEq]
    rfl

theorem Borders.part_eq_nil {front back : List Region} {above below : List Line}
    {part feed : List Fragment} (borders : Borders front back above part feed below)
    (starts : Text.lastOr none (Piece.join front) = none ∨
      Text.lastOr none (Piece.join front) = some '\n') : part = [] := by
  by_contra filled
  obtain ⟨init, fragment, rfl⟩ := (List.eq_nil_or_concat' part).resolve_left filled
  obtain ⟨_, _, nonempty⟩ := @Fragment.index_ofRegions 0 front fragment (by simp [borders.frontEq])
  have spelled := Fragment.flatMap_text_ofRegions 0 front
  have notFeed : fragment.text.getLast? ≠ some '\n' := by
    simpa [Fragment.endsLine] using borders.goesOn fragment (by simp)
  rw [borders.frontEq] at spelled
  rw [← spelled] at starts
  simp only [List.flatMap_append, List.flatMap_singleton, Text.lastOr_append] at starts
  rw [Text.lastOr_of_ne_nil nonempty] at starts
  rcases starts with absent | feed
  · exact nonempty (List.getLast?_eq_none_iff.mp absent)
  · exact notFeed feed

theorem dollarCount_append (first second : List Fragment) :
    dollarCount ⟨first ++ second⟩ = dollarCount ⟨first⟩ + dollarCount ⟨second⟩ := by
  have shift (count : Nat) (fragments : List Fragment) :
      fragments.foldl (fun count fragment => count + countDollars fragment.text) count =
        count + fragments.foldl (fun count fragment => count + countDollars fragment.text) 0 := by
    induction fragments generalizing count with
    | nil => rfl
    | cons fragment fragments ih =>
        rw [List.foldl_cons, List.foldl_cons, ih, ih (0 + _)]
        omega
  simp only [dollarCount, looseFragments, List.filter_append, List.foldl_append]
  exact shift _ _

theorem countDollars_eq_zero {text : List Char} (free : '$' ∉ text) : countDollars text = 0 := by
  unfold countDollars
  generalize (none : Option Char) = before
  induction text generalizing before with
  | nil => rfl
  | cons char text ih =>
      have own : char ≠ '$' := by
        rintro rfl
        simp at free
      simp [countDollarsAfter, own, ih fun member => free (by simp [member])]

theorem dollarCount_eq_zero {fragments : List Fragment}
    (free : ∀ fragment ∈ fragments, fragment.kind = .outside → '$' ∉ fragment.text) :
    dollarCount ⟨fragments⟩ = 0 := by
  induction fragments with
  | nil => rfl
  | cons fragment fragments ih =>
      rw [← List.singleton_append, dollarCount_append,
        ih fun other member => free other (by simp [member])]
      by_cases loose : fragment.kind = .outside
      · have noDollars := countDollars_eq_zero (free fragment (by simp) loose)
        simp [dollarCount, looseFragments, loose, noDollars]
      · simp [dollarCount, looseFragments, loose]

def strayOf (lines : List Line) : List Fragment :=
  (lines.filter hasStrayDollar).flatMap looseFragments

@[simp] theorem strayOf_append (first second : List Line) :
    strayOf (first ++ second) = strayOf first ++ strayOf second := by
  simp [strayOf]

theorem strayOf_subset (lines : List Line) : strayOf lines ⊆ lines.flatMap fragments := by
  intro fragment member
  obtain ⟨line, inLines, loose⟩ := List.mem_flatMap.mp member
  exact List.mem_flatMap.mpr ⟨line, (List.mem_filter.mp inLines).1, (List.mem_filter.mp loose).1⟩

theorem strayOf_of_even {lines : List Line} (even : ∀ line ∈ lines, line.dollarCount = 0) :
    strayOf lines = [] := by
  have noStray : lines.filter hasStrayDollar = [] := by
    rw [List.filter_eq_nil_iff]
    intro line member
    simp [hasStrayDollar, even line member]
  rw [strayOf, noStray]
  rfl

theorem strayOf_congr {first second more : List Fragment}
    (count : dollarCount ⟨first⟩ = dollarCount ⟨second⟩)
    (loose : looseFragments ⟨first⟩ = looseFragments ⟨second⟩ ++ more) :
    strayOf [⟨first⟩] = strayOf [⟨second⟩] ++ more ∨ strayOf [⟨first⟩] = strayOf [⟨second⟩] := by
  have same : hasStrayDollar ⟨first⟩ = hasStrayDollar ⟨second⟩ := by
    rw [hasStrayDollar, hasStrayDollar, count]
  cases odd : hasStrayDollar ⟨second⟩ with
  | true => exact .inl (by simp [strayOf, same, odd, loose])
  | false => exact .inr (by simp [strayOf, same, odd])

/-- Dollars in a block of code are not counted, and there are none in the line feed after it. -/
theorem Straddles.stray {part feed : List Fragment} {onLine : Bool} {lines : List Line}
    (straddles : Straddles part feed onLine lines)
    (feeds : ∀ fragment ∈ feed, fragment.text = ['\n']) :
    strayOf lines = strayOf [⟨part⟩] ++ feed.filter (·.kind == .outside) ∨
      strayOf lines = strayOf [⟨part⟩] := by
  have feedFree : ∀ fragment ∈ feed, fragment.kind = .outside → '$' ∉ fragment.text := by
    intro fragment member _
    simp [feeds fragment member]
  cases straddles with
  | @single fragment fence =>
      have even : dollarCount ⟨fragment :: feed⟩ = 0 := by
        refine dollarCount_eq_zero fun other member loose => ?_
        rcases List.mem_cons.mp member with rfl | inFeed
        · simp [fence.isCode] at loose
        · exact feedFree other inFeed loose
      refine strayOf_congr ?_ ?_
      · rw [dollarCount_append, even, Nat.add_zero]
      · simp [looseFragments, fence.isCode]
  | @several first last inner fence codes tick =>
      right
      have start : strayOf [⟨part ++ [first]⟩] = strayOf [⟨part⟩] := by
        have even : dollarCount ⟨[first]⟩ = 0 := dollarCount_eq_zero (by simp [fence.isCode])
        have loose : looseFragments ⟨part ++ [first]⟩ = looseFragments ⟨part⟩ ++ [] := by
          simp [looseFragments, fence.isCode]
        rcases strayOf_congr (by rw [dollarCount_append, even, Nat.add_zero]) loose with same | same
        · rw [same, List.append_nil]
        · exact same
      have rest : strayOf (inner.map (fun fragment => ⟨[fragment]⟩) ++ [⟨last :: feed⟩]) = [] := by
        refine strayOf_of_even fun line member => ?_
        rcases List.mem_append.mp member with inInner | final
        · obtain ⟨fragment, isInner, rfl⟩ := List.mem_map.mp inInner
          exact dollarCount_eq_zero (by simp [codes fragment isInner])
        · rw [List.mem_singleton.mp final]
          refine dollarCount_eq_zero fun other member loose => ?_
          rcases List.mem_cons.mp member with rfl | inFeed
          · simp [tick.isCode] at loose
          · exact feedFree other inFeed loose
      rw [← List.singleton_append, strayOf_append, start, rest, List.append_nil]

end Line

namespace Fragment

def spansOf (fragments : List Fragment) (index : Nat) : List Span :=
  (fragments.filter (·.index == index)).map span

theorem spansOf_append (first second : List Fragment) (index : Nat) :
    spansOf (first ++ second) index = spansOf first index ++ spansOf second index := by
  simp [spansOf]

theorem spansOf_eq_nil {fragments : List Fragment} {index : Nat}
    (others : ∀ fragment ∈ fragments, fragment.index ≠ index) : spansOf fragments index = [] := by
  have noneOwn : fragments.filter (·.index == index) = [] := by
    rw [List.filter_eq_nil_iff]
    intro fragment member
    simpa using others fragment member
  rw [spansOf, noneOwn]
  rfl

end Fragment

theorem Line.Borders.start_below {front back : List Region} {above below : List Line}
    {part feed : List Fragment} (borders : Borders front back above part feed below) :
    ∀ fragment ∈ below.flatMap fragments, front.length + 1 ≤ fragment.index ∧
      (fragment.index = front.length + 1 → 1 ≤ fragment.span.start) := by
  intro fragment member
  rcases borders.single with ⟨_, isNil⟩ | ⟨first, feedEq⟩
  · simp [isNil] at member
  · obtain ⟨left, right, split⟩ := List.append_of_mem member
    have whole := borders.backEq
    rw [feedEq, split] at whole
    obtain ⟨before, inside, region, _, _, _, indexEq, lies⟩ :=
      @Fragment.ofRegions_split _ _ (first :: left) _ _ whole
    refine ⟨by omega, fun own => ?_⟩
    have isNil : before = [] := List.eq_nil_of_length_eq_zero (by omega)
    have frontEq := congrArg List.length lies.frontEq
    rw [isNil, List.flatMap_cons, (borders.feeds first (by simp [feedEq])).textEq] at frontEq
    simp only [List.length_append, List.length_singleton, Piece.join_nil, List.length_nil] at frontEq
    rw [lies.spanEq]
    dsimp only
    omega

theorem Line.Borders.index_front {front back : List Region} {above below : List Line}
    {part feed : List Fragment} (borders : Borders front back above part feed below) :
    ∀ fragment ∈ strayOf above ++ strayOf [⟨part⟩], fragment.index < front.length := by
  intro fragment member
  have placed : fragment ∈ Fragment.ofRegions 0 front := by
    rw [borders.frontEq]
    rcases List.mem_append.mp member with inAbove | inPart
    · exact List.mem_append_left _ (strayOf_subset above inAbove)
    · exact List.mem_append_right _ (by simpa using strayOf_subset [⟨part⟩] inPart)
  simpa using (Fragment.index_ofRegions placed).2.1

/-- What a block of code can change of the fragments with stray dollars is whether the line feed
after it is one of them. -/
theorem Line.Borders.strayFragments {front back : List Region} {above below : List Line}
    {part feed : List Fragment} (borders : Borders front back above part feed below)
    {block : List Char} (fenced : Fence.IsFenced block) :
    ∃ added, DollarMath.strayFragments (front ++ Region.code block :: back) =
        (strayOf above ++ strayOf [⟨part⟩]) ++ (added ++ strayOf below) ∧
      (added = [] ∨ ∃ fragment, added = [fragment] ∧ IsFeed (front.length + 1) fragment) := by
  obtain ⟨lines, linesEq, straddles⟩ := borders.ofRegions_code fenced
  have whole : DollarMath.strayFragments (front ++ Region.code block :: back) =
      strayOf (ofRegions (front ++ Region.code block :: back)) := rfl
  rw [whole, linesEq, strayOf_append, strayOf_append]
  rcases straddles.stray fun fragment member => (borders.feeds fragment member).textEq with
    same | same
  · refine ⟨feed.filter (·.kind == .outside), by simp [same], ?_⟩
    rcases borders.single with ⟨rfl, _⟩ | ⟨fragment, rfl⟩
    · exact .inl rfl
    · by_cases free : fragment.kind = .outside
      · exact .inr ⟨fragment, by simp [free], borders.feeds fragment (by simp)⟩
      · exact .inl (by simp [free])
  · exact ⟨[], by simp [same], .inl rfl⟩

theorem map_range_around {α : Type} {all before after : Nat → List α} {count more : Nat}
    {extra : List α} (front : ∀ place < count, all place = before place) (atCount : all count = [])
    (next : all (count + 1) = extra ++ after (count + 1))
    (back : ∀ place, count + 1 < place → all place = after place) :
    (List.range (count + (more + 1))).map all = (List.range count).map before ++
      [] :: ((List.range more).map fun place => after (count + 1 + place)).modifyHead
        (extra ++ ·) := by
  have first : (List.range count).map all = (List.range count).map before :=
    List.map_congr_left fun place inRange => front place (List.mem_range.mp inRange)
  rw [List.range_add, List.map_append, List.map_map, List.range_succ_eq_map, List.map_cons, first]
  congr 2
  cases more with
  | zero => rfl
  | succ more =>
      rw [List.range_succ_eq_map, List.map_map, List.map_cons, List.map_cons, List.modifyHead_cons,
        List.map_map, List.map_map]
      congr 1
      refine List.map_congr_left fun place _ => ?_
      show all (count + (place + 1 + 1)) = after (count + 1 + (place + 1))
      rw [back _ (by omega)]
      congr 1
      omega

/-- What a block of code can change of the spans with stray dollars is whether the line feed after
it is one of them. -/
theorem Line.Borders.strayDollars {front back : List Region} {above below : List Line}
    {part feed : List Fragment} (borders : Borders front back above part feed below) :
    ∃ heldFront heldBack : List (List Span), heldFront.length = front.length ∧
      (∀ spans, heldBack.head? = some spans → ∀ span ∈ spans, 1 ≤ span.start) ∧
      ∀ block, Fence.IsFenced block → ∃ extra : List Span, (extra = [] ∨ extra = [⟨0, 1⟩]) ∧
        DollarMath.strayDollars (front ++ Region.code block :: back) =
          heldFront ++ [] :: heldBack.modifyHead (extra ++ ·) := by
  have inBack : ∀ fragment ∈ strayOf below, front.length + 1 ≤ fragment.index ∧
      (fragment.index = front.length + 1 → 1 ≤ fragment.span.start) :=
    fun fragment member => borders.start_below fragment (strayOf_subset below member)
  refine ⟨(List.range front.length).map (Fragment.spansOf (strayOf above ++ strayOf [⟨part⟩])),
    (List.range back.length).map fun place =>
      Fragment.spansOf (strayOf below) (front.length + 1 + place), by simp, ?_, ?_⟩
  · intro spans first span member
    have own : spans = Fragment.spansOf (strayOf below) (front.length + 1) := by
      cases sizeEq : back.length with
      | zero => simp [sizeEq] at first
      | succ size => simpa [sizeEq, List.range_succ_eq_map] using first.symm
    rw [own] at member
    obtain ⟨fragment, kept, rfl⟩ := List.mem_map.mp member
    obtain ⟨isStray, indexEq⟩ := List.mem_filter.mp kept
    exact (inBack fragment isStray).2 (by simpa using indexEq)
  · intro block fenced
    obtain ⟨added, strays, isFeed⟩ := borders.strayFragments fenced
    have addedIndex : ∀ fragment ∈ added, fragment.index = front.length + 1 := by
      rcases isFeed with rfl | ⟨fragment, rfl, own⟩
      · simp
      · simpa using own.indexEq
    -- Each region finds its spans among the fragments of its own part of the document only.
    have notFront {place : Nat} (late : front.length ≤ place) :
        Fragment.spansOf (strayOf above ++ strayOf [⟨part⟩]) place = [] := by
      refine Fragment.spansOf_eq_nil fun fragment member => ?_
      have := borders.index_front fragment member
      omega
    have notAdded {place : Nat} (other : place ≠ front.length + 1) :
        Fragment.spansOf added place = [] :=
      Fragment.spansOf_eq_nil fun fragment member => addedIndex fragment member ▸ other.symm
    have notBack {place : Nat} (early : place ≤ front.length) :
        Fragment.spansOf (strayOf below) place = [] := by
      refine Fragment.spansOf_eq_nil fun fragment member => ?_
      have := (inBack fragment member).1
      omega
    refine ⟨Fragment.spansOf added (front.length + 1), ?_, ?_⟩
    · rcases isFeed with rfl | ⟨fragment, rfl, own⟩
      · exact .inl rfl
      · exact .inr (by simp [Fragment.spansOf, own.indexEq, own.spanEq])
    · have spans : DollarMath.strayDollars (front ++ Region.code block :: back) =
          (List.range (front ++ Region.code block :: back).length).map
            (Fragment.spansOf
              (DollarMath.strayFragments (front ++ Region.code block :: back))) := rfl
      rw [spans, strays, List.length_append, List.length_cons]
      refine map_range_around ?_ ?_ ?_ ?_
      · intro place early
        rw [Fragment.spansOf_append, Fragment.spansOf_append added, notAdded (by omega),
          notBack (by omega), List.append_nil, List.append_nil]
      · rw [Fragment.spansOf_append, Fragment.spansOf_append added, notFront (by omega),
          notAdded (by omega), notBack (by omega)]
        rfl
      · rw [Fragment.spansOf_append, Fragment.spansOf_append added, notFront (by omega),
          List.nil_append]
      · intro place late
        rw [Fragment.spansOf_append, Fragment.spansOf_append added, notFront (by omega),
          notAdded (by omega), List.nil_append, List.nil_append]

end DollarMath
