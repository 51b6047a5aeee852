import DollarMath.Proofs.Document.FenceSpans

/-!
What it is for a text to be cut into fenced code and prose, said of its lines: blocks of code lie on
the lines from one that opens a fence to the first that closes it, and prose opens no fence that is
closed. A text has exactly one such cut, and each of its parts is cut into itself.
-/

namespace DollarMath.Fence

/-- After the text in front a block lies on lines of its own: from one that opens a fence to the
first below that closes it, the end of that line apart. -/
def OnLines (text front block : List Char) : Prop :=
  ∃ above first inside last below,
    Text.lines text = above ++ first :: (inside ++ last :: below) ∧ above.flatten = front ∧
      Encloses first inside last ∧ block = first ++ inside.flatten ++ Text.lineBody last

def OpensNone (text front stretch : List Char) : Prop :=
  ∀ above line below, Text.lines text = above ++ line :: below →
    front.length ≤ above.flatten.length →
    above.flatten.length + line.length ≤ front.length + stretch.length →
    ∀ width, opens? line = some width → ∀ later ∈ below, closes width later = false

/-- The segments lie end to end over the text, none is empty, and code and prose take turns. -/
structure IsFencing (text : List Char) (segments : List Segment) : Prop where
  spelled : Piece.join segments = text
  fused : Piece.IsFused segments
  code : ∀ front block back, segments = front ++ ⟨.code, block⟩ :: back →
    OnLines text (Piece.join front) block
  prose : ∀ front stretch back, segments = front ++ ⟨.prose, stretch⟩ :: back →
    OpensNone text (Piece.join front) stretch

def Seated (before : Option Char) (segments : List Segment) : Prop :=
  ∀ front block back, segments = front ++ ⟨.code, block⟩ :: back →
    AtLine (Text.lastOr before (Piece.join front)) ∧ IsBlock block ∧
      ∀ char, (Piece.join back).head? = some char → Text.isReturn char = true

theorem Seated.tail {before : Option Char} {segment : Segment} {segments : List Segment}
    (seated : Seated before (segment :: segments)) :
    Seated (Text.lastOr before segment.text) segments := by
  rintro front block back rfl
  simpa using seated (segment :: front) block back rfl

theorem seated_assemble {before : Option Char} {front : List Char} {parts : Parts}
    (framed : Framed (Text.lastOr before front) parts) : Seated before (assemble front parts) := by
  intro others block back split
  induction parts generalizing before front others with
  | nil =>
      have member : (⟨.code, block⟩ : Segment) ∈ assemble front [] := by simp [split]
      simp [assemble] at member
  | cons part parts ih =>
      obtain ⟨own, prose⟩ := part
      have shape : assemble front ((own, prose) :: parts) =
          ⟨.prose, front⟩ :: ⟨.code, own⟩ :: assemble prose parts := rfl
      rw [shape] at split
      cases others with
      | nil => simp at split
      | cons first others =>
          obtain ⟨rfl, rest⟩ := List.cons.inj split
          cases others with
          | nil =>
              obtain ⟨same, rfl⟩ := List.cons.inj rest
              obtain rfl : own = block := congrArg Piece.text same
              refine ⟨by simpa using framed.1, framed.2.1, fun char head => ?_⟩
              cases prose with
              | nil =>
                  cases parts with
                  | nil => simp [assemble] at head
                  | cons next parts => exact absurd rfl framed.filled
              | cons first prose => exact framed.2.2.1 char (by simpa [assemble] using head)
          | cons second others =>
              obtain ⟨rfl, later⟩ := List.cons.inj rest
              have seated := ih framed.2.2.2 others later
              have joined : Text.lastOr own.getLast? (Piece.join others) =
                  Text.lastOr before
                    (Piece.join (⟨.prose, front⟩ :: ⟨.code, own⟩ :: others)) := by
                simp [Text.lastOr_of_ne_nil framed.2.1.ne_nil]
              exact joined ▸ seated

theorem exists_framed {before : Option Char} {segments : List Segment}
    (seated : Seated before segments) :
    ∃ front parts, Piece.paint segments = Piece.paint (assemble front parts) ∧
      Framed (Text.lastOr before front) parts := by
  induction segments generalizing before with
  | nil => exact ⟨[], [], rfl, trivial⟩
  | cons segment segments ih =>
      obtain ⟨front, parts, painted, framed⟩ := ih seated.tail
      obtain ⟨kind, text⟩ := segment
      cases kind with
      | prose =>
          refine ⟨text ++ front, parts, ?_, by simpa using framed⟩
          simp only [assemble, Piece.paint_cons] at painted ⊢
          rw [painted]
          simp
      | code =>
          obtain ⟨atLine, isBlock, returns⟩ := seated [] text segments rfl
          refine ⟨[], (text, front) :: parts, ?_, atLine, isBlock, fun char head => ?_, ?_⟩
          · simp only [assemble, segmentsOf_cons, Piece.paint_cons] at painted ⊢
            rw [painted]
            simp
          · refine returns char ?_
            rw [← Piece.map_fst_paint, painted, Piece.map_fst_paint]
            simp [assemble, head]
          · rwa [Text.lastOr_of_ne_nil isBlock.ne_nil] at framed

theorem join_filter (segments : List Segment) :
    Piece.join (segments.filter (!·.text.isEmpty)) = Piece.join segments := by
  rw [← Piece.map_fst_paint, paint_filter, Piece.map_fst_paint]

theorem seated_split (text : List Char) : Seated none (split text) := by
  obtain ⟨front, parts, splitEq, framed⟩ := exists_assemble text
  rw [splitEq, fuse_assemble framed]
  intro others block back filtered
  obtain ⟨upper, lower, whole, upperEq, lowerEq⟩ := List.filter_eq_append_iff.mp filtered
  obtain ⟨gap, rest, lowerSplit, gapEmpty, _, restEq⟩ := List.filter_eq_cons_iff.mp lowerEq
  have seated := seated_assemble framed (upper ++ gap) block rest
    (by rw [whole, lowerSplit, List.append_assoc])
  have noGap : gap.filter (!·.text.isEmpty) = [] :=
    List.filter_eq_nil_iff.mpr gapEmpty
  rw [← join_filter (upper ++ gap), List.filter_append, upperEq, noGap, List.append_nil,
    ← join_filter rest, restEq] at seated
  exact seated

theorem exists_ends {text : List Char}
    (returns : ∀ char, text.head? = some char → Text.isReturn char = true) :
    ∃ ending rest, text = ending ++ rest ∧ Ends ending rest := by
  cases text with
  | nil => exact ⟨[], [], rfl, ⟨by simp, .inl ⟨rfl, rfl⟩⟩⟩
  | cons first others =>
      obtain ⟨ending, rest, whole, areReturns, single, last, lastEq, isBreak, uncut⟩ :=
        Text.exists_ending List.head?_cons (returns first rfl)
      refine ⟨ending, rest, whole, ⟨areReturns, .inr ⟨single, ⟨last, lastEq, isBreak⟩, ?_⟩⟩⟩
      intro isReturn
      rw [lastEq, Option.some.injEq] at isReturn
      exact uncut isReturn

theorem lines_append_block {front block rest : List Char} (atLine : AtLine front.getLast?)
    (isBlock : IsBlock block) :
    Text.lines (front ++ (block ++ rest)) = Text.lines front ++ Text.lines (block ++ rest) := by
  by_cases empty : front = []
  · rw [empty]
    rfl
  · obtain ⟨init, last, rfl⟩ := (List.eq_nil_or_concat' front).resolve_left empty
    refine Text.lines_append ⟨⟨last, List.getLast?_concat, atLine last List.getLast?_concat⟩, ?_⟩
    intro _ feed
    obtain ⟨char, head, fence⟩ := isBlock.head
    obtain ⟨others, rfl⟩ := List.head?_eq_some_iff.mp head
    simp only [List.cons_append, List.head?_cons, Option.some.injEq] at feed
    rw [feed] at fence
    exact absurd fence (by decide)

theorem onLines_of_atLine {front block rest : List Char} (atLine : AtLine front.getLast?)
    (isBlock : IsBlock block)
    (returns : ∀ char, rest.head? = some char → Text.isReturn char = true) :
    OnLines (front ++ (block ++ rest)) front block := by
  obtain ⟨ending, after, rfl, ends⟩ := exists_ends returns
  obtain ⟨first, inside, last, linesEq, encloses, _, blockEq⟩ := isBlock.lines_append ends
  refine ⟨Text.lines front, first, inside, last, Text.lines after, ?_, Text.flatten_lines front,
    encloses, blockEq⟩
  rw [lines_append_block atLine isBlock, linesEq]

theorem atLine_of_lines {text line : List Char} {above below : List (List Char)}
    (split : Text.lines text = above ++ line :: below) : AtLine above.flatten.getLast? := by
  obtain rfl | ⟨upper, last, rfl⟩ := List.eq_nil_or_concat' above
  · simp [AtLine]
  · have areLines := Text.areLines_lines text
    rw [split] at areLines
    have broken := (List.isChain_append.mp areLines.broken).2.2 last (by simp) line (by simp)
    obtain ⟨char, lastEq, isBreak⟩ := broken.ended
    intro other same
    rw [List.flatten_append, List.flatten_singleton,
      List.getLast?_append_of_ne_nil _ broken.ne_nil, lastEq, Option.some.injEq] at same
    exact same ▸ isBreak

theorem OnLines.seated {text front block : List Char} (onLines : OnLines text front block) :
    AtLine front.getLast? ∧ IsBlock block ∧ ∃ rest, text = front ++ (block ++ rest) ∧
      ∀ char, rest.head? = some char → Text.isReturn char = true := by
  obtain ⟨above, first, inside, last, below, split, rfl, encloses, rfl⟩ := onLines
  have areLines := Text.areLines_lines text
  rw [split] at areLines
  have blockLines := (Text.AreLines.of_append areLines).2
  have isBlock := isBlock_of_encloses blockLines encloses
  obtain ⟨width, _, _, closed⟩ := encloses
  refine ⟨atLine_of_lines split, isBlock, Text.lineReturn last ++ below.flatten, ?_, ?_⟩
  · have parts := Text.lineBody_append_lineReturn last
    have whole := Text.flatten_lines text
    rw [split] at whole
    rw [← whole]
    conv_lhs => rw [← parts]
    simp
  · intro char head
    cases endingEq : Text.lineReturn last with
    | cons ret others =>
        rw [endingEq] at head
        obtain rfl : ret = char := by simpa using head
        have member : ret ∈ Text.lineReturn last := by simp [endingEq]
        exact Text.isReturn_of_mem_lineReturn member
    | nil =>
        cases below with
        | nil => simp [endingEq] at head
        | cons next below =>
            have cut : first :: (inside ++ last :: next :: below) =
                (first :: inside) ++ last :: next :: below := rfl
            have fromLast := (Text.AreLines.of_append (cut ▸ blockLines)).2
            exact absurd endingEq (lineReturn_of_closes fromLast closed).1

theorem length_paint (segments : List Segment) :
    (Piece.paint segments).length = (Piece.join segments).length := by
  rw [← Piece.map_fst_paint, List.length_map]

theorem kindAt_segment {front back : List Segment} {kind : SegmentKind} {text : List Char}
    {place : Nat} (lower : (Piece.join front).length ≤ place)
    (upper : place < (Piece.join front).length + text.length) :
    (Piece.paint (front ++ ⟨kind, text⟩ :: back))[place]?.map Prod.snd = some kind := by
  rw [Piece.paint_append, Piece.paint_cons,
    List.getElem?_append_right (by rw [length_paint]; exact lower), length_paint]
  have inside : place - (Piece.join front).length < text.length := by omega
  exact kindAt_of_lt inside

theorem exists_segmentAt {segments : List Segment} {kind : SegmentKind} {place : Nat}
    (found : (Piece.paint segments)[place]?.map Prod.snd = some kind) :
    ∃ front text back, segments = front ++ ⟨kind, text⟩ :: back ∧
      (Piece.join front).length ≤ place ∧ place < (Piece.join front).length + text.length := by
  induction segments generalizing place with
  | nil => simp at found
  | cons segment segments ih =>
      obtain ⟨own, text⟩ := segment
      by_cases inside : place < text.length
      · rw [Piece.paint_cons, kindAt_of_lt inside, Option.some.injEq] at found
        subst found
        exact ⟨[], text, segments, rfl, Nat.zero_le _, by simpa using inside⟩
      · obtain ⟨rest, rfl⟩ := Nat.exists_eq_add_of_le (Nat.le_of_not_lt inside)
        rw [Piece.paint_cons, kindAt_of_le] at found
        obtain ⟨front, stretch, back, rfl, lower, upper⟩ := ih found
        refine ⟨⟨own, text⟩ :: front, stretch, back, rfl, ?_, ?_⟩
        all_goals rw [Piece.join_cons, List.length_append]
        all_goals dsimp only
        all_goals omega

theorem isFencing_split (text : List Char) : IsFencing text (split text) := by
  have spelled := join_split text
  refine ⟨spelled, isFused_split text, fun front block back whole => ?_,
    fun front stretch back whole => ?_⟩
  · obtain ⟨atLine, isBlock, returns⟩ := seated_split text front block back whole
    rw [← Text.getLast?_or, Option.or_none] at atLine
    have onLines := onLines_of_atLine atLine isBlock returns
    rw [whole, Piece.join_append, Piece.join_cons] at spelled
    rwa [spelled] at onLines
  · intro above line below linesEq starts ends width opened
    have filled : line ≠ [] := (Text.areLines_lines text).ne_nil (by simp [linesEq])
    have size := List.length_pos_iff.mpr filled
    have isProse : (Piece.paint (split text))[above.flatten.length]?.map Prod.snd =
        some .prose := whole ▸ kindAt_segment starts (by omega)
    rw [split_eq_fuse, Piece.paint_fuse] at isProse
    have shut := block?_eq_none_of_paint (fun _ => (Text.areLines_lines text).ne_nil) linesEq isProse
    exact block?_eq_none_iff.mp shut width opened

theorem IsFencing.exists_lines {text : List Char} {segments front back : List Segment}
    {stretch : List Char} (fencing : IsFencing text segments)
    (whole : segments = front ++ ⟨.prose, stretch⟩ :: back) :
    ∃ upper lower, Text.lines text = upper ++ lower ∧
      upper.flatten = Piece.join front ++ stretch := by
  cases back with
  | nil =>
      refine ⟨Text.lines text, [], by simp, ?_⟩
      rw [Text.flatten_lines, ← fencing.spelled, whole]
      simp
  | cons next back =>
      obtain ⟨kind, block⟩ := next
      have differ := (whole ▸ fencing.fused).kind_ne
      cases kind with
      | prose => exact absurd rfl differ
      | code =>
          obtain ⟨above, first, inside, last, below, linesEq, joined, _⟩ :=
            fencing.code (front ++ [⟨.prose, stretch⟩]) block back (by simp [whole])
          exact ⟨above, _, linesEq, by simpa using joined⟩

theorem IsFencing.staysShut {text : List Char} {segments : List Segment}
    (fencing : IsFencing text segments) : StaysShut segments := by
  intro above line below linesEq isProse
  rw [fencing.spelled] at linesEq
  obtain ⟨front, stretch, back, whole, lower, upper⟩ := exists_segmentAt isProse
  obtain ⟨before, after, cut, ends⟩ := fencing.exists_lines whole
  have within : above.flatten.length + line.length ≤ (Piece.join front).length + stretch.length := by
    have size := congrArg List.length ends
    rw [List.length_append] at size
    rw [cut] at linesEq
    rcases append_eq_append_cons linesEq with ⟨rest, rfl, _⟩ | ⟨rest, rfl, _⟩
    · simp only [List.flatten_append, List.flatten_cons, List.length_append] at size
      omega
    · rw [List.flatten_append, List.length_append] at upper
      omega
  exact block?_eq_none_iff.mpr
    (fencing.prose front stretch back whole above line below linesEq lower within)

theorem IsFencing.seated {text : List Char} {segments : List Segment}
    (fencing : IsFencing text segments) : Seated none segments := by
  intro front block back whole
  obtain ⟨atLine, isBlock, rest, split, returns⟩ :=
    (fencing.code front block back whole).seated
  rw [← fencing.spelled, whole, Piece.join_append, Piece.join_cons] at split
  obtain rfl := List.append_cancel_left (List.append_cancel_left split)
  refine ⟨?_, isBlock, returns⟩
  rwa [← Text.getLast?_or, Option.or_none]

theorem IsFencing.eq_split {text : List Char} {segments : List Segment}
    (fencing : IsFencing text segments) : segments = split text := by
  obtain ⟨front, parts, painted, framed⟩ := exists_framed fencing.seated
  have spelled : Piece.join (assemble front parts) = text := by
    rw [← Piece.map_fst_paint, ← painted, Piece.map_fst_paint, fencing.spelled]
  have shut : StaysShut (assemble front parts) := by
    have own := fencing.staysShut
    unfold StaysShut at own ⊢
    rwa [spelled, ← painted, ← fencing.spelled]
  rw [← spelled, (split_join_assemble framed).mpr shut]
  refine fencing.fused.eq_of_paint_eq (Piece.isFused_fuse _) ?_
  rw [Piece.paint_fuse, painted]

theorem eq_of_singleton {segment other : Segment} {front back : List Segment}
    (same : [segment] = front ++ other :: back) : front = [] ∧ segment = other ∧ back = [] := by
  rcases List.singleton_eq_append_iff.mp same with ⟨rfl, rest⟩ | ⟨_, isNil⟩
  · obtain ⟨rfl, rfl⟩ := List.cons.inj rest
    exact ⟨rfl, rfl, rfl⟩
  · simp at isNil

theorem isFencing_block {block : List Char} (isBlock : IsBlock block) :
    IsFencing block [⟨.code, block⟩] := by
  refine ⟨by simp, ⟨by simpa using isBlock.ne_nil, by simp⟩, fun front other back whole => ?_,
    fun front stretch back whole => ?_⟩
  · obtain ⟨rfl, same, rfl⟩ := eq_of_singleton whole
    obtain rfl : block = other := congrArg Piece.text same
    have atStart : AtLine ([] : List Char).getLast? := by simp [AtLine]
    have onLines := @onLines_of_atLine [] block [] atStart isBlock (by simp)
    simpa using onLines
  · have same := congrArg Piece.kind (eq_of_singleton whole).2.1
    simp at same

theorem Ends.lines_append {ending rest : List Char} (ends : Ends ending rest)
    (filled : ending ++ rest ≠ []) :
    Text.lines (ending ++ rest) = ending :: Text.lines rest ∧ opens? ending = none := by
  refine ⟨?_, opens?_eq_none fun tick => absurd (ends.returns _ tick) (by decide)⟩
  rcases ends.broken with ⟨rfl, rfl⟩ | ⟨single, broken⟩
  · exact absurd rfl filled
  · rw [Text.lines_append broken, single]
    rfl

/-- The lines of prose are lines of the whole text, apart from the returns at the end of a block
above. -/
theorem IsFencing.exists_lines_prose {text : List Char} {segments front back : List Segment}
    {stretch : List Char} (fencing : IsFencing text segments)
    (whole : segments = front ++ ⟨.prose, stretch⟩ :: back) :
    ∃ above kept lower skipped, Text.lines text = above ++ (kept ++ lower) ∧
      Text.lines stretch = skipped ++ kept ∧
      above.flatten = Piece.join front ++ skipped.flatten ∧
      ∀ line ∈ skipped, opens? line = none := by
  obtain ⟨upper, lower, linesEq, upperFlat⟩ := fencing.exists_lines whole
  have areLines := Text.areLines_lines text
  rw [linesEq] at areLines
  have upperEq := Text.lines_flatten (Text.AreLines.of_append areLines).1
  rw [upperFlat] at upperEq
  obtain rfl | ⟨front, last, rfl⟩ := List.eq_nil_or_concat' front
  · exact ⟨[], upper, lower, [], linesEq, by simpa using upperEq, rfl, by simp⟩
  · obtain ⟨kind, block⟩ := last
    have shape : segments = front ++ ⟨kind, block⟩ :: ⟨.prose, stretch⟩ :: back := by simp [whole]
    have differ := (shape ▸ fencing.fused).kind_ne
    cases kind with
    | prose => exact absurd rfl differ
    | code =>
        obtain ⟨atLine, isBlock, returns⟩ := fencing.seated front block _ shape
        rw [← Text.getLast?_or, Option.or_none] at atLine
        have filled : stretch ≠ [] := fencing.fused.nonempty ⟨.prose, stretch⟩ (by simp [whole])
        have returns' : ∀ char, stretch.head? = some char → Text.isReturn char = true := by
          intro char head
          obtain ⟨others, rfl⟩ := List.head?_eq_some_iff.mp head
          exact returns char rfl
        obtain ⟨ending, rest, rfl, ends⟩ := exists_ends returns'
        obtain ⟨stretchLines, shut⟩ := ends.lines_append filled
        obtain ⟨first, inside, last, blockLines, _, endingEq, blockEq⟩ := isBlock.lines_append ends
        have parts := Text.lineBody_append_lineReturn last
        rw [Piece.join_append, Piece.join_cons, Piece.join_nil, List.append_nil, List.append_assoc,
          lines_append_block atLine isBlock, blockLines] at upperEq
        refine ⟨Text.lines (Piece.join front) ++ first :: (inside ++ [last]), Text.lines rest, lower,
          [ending], ?_, by simpa using stretchLines, ?_, by simpa using shut⟩
        · rw [linesEq, ← upperEq]
          simp
        · rw [endingEq] at parts
          simp [blockEq, parts]

theorem IsFencing.prose_alone {text : List Char} {segments front back : List Segment}
    {stretch : List Char} (fencing : IsFencing text segments)
    (whole : segments = front ++ ⟨.prose, stretch⟩ :: back) :
    IsFencing stretch [⟨.prose, stretch⟩] := by
  have filled : stretch ≠ [] := fencing.fused.nonempty ⟨.prose, stretch⟩ (by simp [whole])
  refine ⟨by simp, ⟨by simpa using filled, by simp⟩, fun front other back alone => ?_, ?_⟩
  · have same := congrArg Piece.kind (eq_of_singleton alone).2.1
    simp at same
  intro _ other _ alone
  obtain ⟨rfl, same, rfl⟩ := eq_of_singleton alone
  obtain rfl : stretch = other := congrArg Piece.text same
  intro upper line below linesEq _ ends width opened later isLater
  obtain ⟨above, kept, lower, skipped, textLines, stretchLines, start, shut⟩ :=
    fencing.exists_lines_prose whole
  rcases append_eq_append_cons (stretchLines ▸ linesEq) with
    ⟨rest, skippedEq, _⟩ | ⟨rest, rfl, keptEq⟩
  · rw [shut line (by simp [skippedEq])] at opened
    simp at opened
  · have place : (above ++ rest).flatten.length =
        (Piece.join front).length + (skipped ++ rest).flatten.length := by
      simp [start]
    refine fencing.prose front stretch back whole (above ++ rest) line (below ++ lower) ?_ ?_ ?_
      width opened later (List.mem_append_left _ isLater)
    · rw [textLines, keptEq]
      simp
    · omega
    · rw [Piece.join_nil, List.length_nil] at ends
      omega

/-- The cut of a text is the only one that lays code on the lines from an opening fence to the first
that closes it, and leaves in prose no opening fence that is closed. The spans of its segments lie
end to end over the text, and each segment is cut into itself. -/
theorem isFencing_iff_split :
    (∀ text segments, IsFencing text segments ↔ segments = split text) ∧
      (∀ text, LieOver text 0 (locate text) ∧
        Piece.place 0 (split text) =
          (locate text).map fun segment => (segment.span.start, segment.toPiece)) ∧
      ∀ text, ∀ segment ∈ split text, split segment.text = [segment] := by
  refine ⟨fun text segments => ⟨IsFencing.eq_split, ?_⟩, fun text => ?_, ?_⟩
  · rintro rfl
    exact isFencing_split text
  · exact ⟨lieOver_locate text, place_split text⟩
  · intro text segment member
    obtain ⟨front, back, whole⟩ := List.append_of_mem member
    obtain ⟨kind, own⟩ := segment
    have fencing := isFencing_split text
    cases kind with
    | code => exact (isFencing_block (fencing.seated front own back whole).2.1).eq_split.symm
    | prose => exact (fencing.prose_alone whole).eq_split.symm

end DollarMath.Fence
