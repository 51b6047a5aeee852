import DollarMath.Proofs.Conversion.Returns
import DollarMath.Proofs.Document.Fencing
import DollarMath.Proofs.Review.DollarLines

/-!
The numbers that the review gives to lines are those of the lines of the document, counted by their
line feeds, as long as every block of fenced code holds one.
-/

namespace DollarMath

def Painted.plain (painted : Painted) : List Char :=
  text (painted.filter fun stroke => stroke.2 = .outside)

namespace Painted

@[simp] theorem plain_append (first second : Painted) :
    plain (first ++ second) = plain first ++ plain second := by
  rw [plain, List.filter_append, text_append]
  rfl

theorem plain_of_outside {painted : Painted} (all : ∀ stroke ∈ painted, stroke.2 = .outside) :
    plain painted = painted.text := by
  rw [plain, List.filter_eq_self.mpr fun stroke member => by simpa using all stroke member]

theorem plain_of_code {painted : Painted} (all : ∀ stroke ∈ painted, stroke.2 = .code) :
    plain painted = [] := by
  rw [plain, List.filter_eq_nil_iff.mpr fun stroke member => by simp [all stroke member]]
  rfl

theorem mem_of_mem_onLine {number line : Nat} {painted : Painted} {stroke : Char × RegionKind}
    (member : stroke ∈ onLine number line painted) : stroke ∈ painted := by
  induction painted generalizing line with
  | nil => simp [onLine] at member
  | cons first painted ih =>
      rw [onLine, List.mem_append] at member
      rcases member with own | later
      · split at own
        next => simp [List.mem_singleton.mp own]
        next => simp at own
      · exact List.mem_cons_of_mem _ (ih later)

theorem kind_of_mem_onLine {number line : Nat} {text : List Char} {kind : RegionKind} :
    ∀ stroke ∈ onLine number line (text.map (·, kind)), stroke.2 = kind := by
  intro stroke member
  obtain ⟨char, _, rfl⟩ := List.mem_map.mp (mem_of_mem_onLine member)
  rfl

end Painted

namespace Fence

def region (segment : Segment) : Region :=
  match segment.kind with
  | .code => ⟨.code, segment.text⟩
  | .prose => Region.outside segment.text

def painted (segments : List Segment) : Painted :=
  Piece.paint (segments.map region)

theorem painted_code (block : List Char) (rest : List Segment) :
    painted (⟨.code, block⟩ :: rest) = block.map (·, .code) ++ painted rest := rfl

theorem painted_prose (prose : List Char) (rest : List Segment) :
    painted (⟨.prose, prose⟩ :: rest) = Painted.outside prose ++ painted rest := rfl

theorem text_painted (segments : List Segment) : (painted segments).text = Piece.join segments := by
  induction segments with
  | nil => rfl
  | cons segment segments ih =>
      obtain ⟨kind, text⟩ := segment
      cases kind with
      | code => rw [painted_code, Painted.text_append, Painted.text_map, ih, Piece.join_cons]
      | prose => rw [painted_prose, Painted.text_append, Painted.text_outside, ih, Piece.join_cons]

theorem IsBlock.feed_mem {block : List Char} (isBlock : IsBlock block)
    (breaks : ∀ char ∈ block, Text.isLineBreak char = true → Text.isReturn char = true)
    (followed : block.IsChain fun first second => first = '\r' → second = '\n') : '\n' ∈ block := by
  obtain ⟨width, first, inside, last, rfl, areLines, _⟩ := isBlock
  obtain ⟨second, others, laterEq⟩ := List.exists_cons_of_ne_nil (List.concat_ne_nil last inside)
  have whole : first ++ inside.flatten ++ last = first ++ (second ++ others.flatten) := by
    have flat := congrArg List.flatten laterEq
    rw [List.flatten_append, List.flatten_singleton, List.flatten_cons] at flat
    rw [List.append_assoc, flat]
  rw [laterEq] at areLines
  rw [whole] at breaks followed ⊢
  obtain ⟨⟨char, ends, isBreak⟩, uncut⟩ := (List.isChain_cons_cons.mp areLines.broken).1
  have inFirst := List.mem_of_getLast? ends
  have isReturn := breaks char (by simp [inFirst]) isBreak
  rcases (by simpa [Text.isReturn] using isReturn : char = '\r' ∨ char = '\n') with rfl | rfl
  · -- A carriage return at the end of a line would be cut from its line feed.
    have filled : second ≠ [] := areLines.ne_nil (List.mem_cons_of_mem _ List.mem_cons_self)
    obtain ⟨next, second, rfl⟩ := List.exists_cons_of_ne_nil filled
    have pair := (List.isChain_append.mp followed).2.2 '\r' ends next (by simp) rfl
    exact absurd (by rw [pair]; rfl) (uncut ends)
  · simp [inFirst]

structure TakeTurns (segments : List Segment) : Prop where
  differ : segments.IsChain fun first second => first.kind ≠ second.kind
  feeds : ∀ segment ∈ segments, segment.kind = .code → '\n' ∈ segment.text

theorem TakeTurns.tail {segment : Segment} {segments : List Segment}
    (turns : TakeTurns (segment :: segments)) : TakeTurns segments :=
  ⟨turns.differ.tail, fun other member => turns.feeds other (List.mem_cons_of_mem _ member)⟩

theorem takeTurns_split {text : List Char}
    (breaks : ∀ char ∈ text, Text.isLineBreak char = true → Text.isReturn char = true)
    (followed : text.IsChain fun first second => first = '\r' → second = '\n') :
    TakeTurns (split text) := by
  refine ⟨(isFencing_split text).fused.differ, fun segment member isCode => ?_⟩
  obtain ⟨kind, block⟩ := segment
  obtain rfl : kind = .code := isCode
  obtain ⟨front, back, whole⟩ := List.append_of_mem member
  have inText : block <:+: text := by
    rw [← join_split text, whole, Piece.join_append, Piece.join_cons, ← List.append_assoc]
    exact ⟨_, _, rfl⟩
  have inBlock := List.IsChain.infix followed inText
  exact (seated_split text front block back whole).2.1.feed_mem
    (fun char member => breaks char (inText.subset member)) inBlock

end Fence

namespace Review

def linesFrom (line : Nat) (segments : List Segment) : List (Nat × List Char) :=
  (proseFrom line segments).flatMap fun part => numbered part.1 (Text.splitFeeds part.2)

theorem proseLines_eq_linesFrom (text : List Char) :
    proseLines text = linesFrom 1 (Fence.split text) := by
  rw [proseLines, prose_eq_proseFrom, linesFrom]

theorem linesFrom_code (line : Nat) (block : List Char) (rest : List Segment) :
    linesFrom line (⟨.code, block⟩ :: rest) = linesFrom (line + block.count '\n') rest := rfl

theorem linesFrom_prose (line : Nat) (prose : List Char) (rest : List Segment) :
    linesFrom line (⟨.prose, prose⟩ :: rest) =
      numbered line (Text.splitFeeds prose) ++ linesFrom (line + prose.count '\n') rest := rfl

theorem mem_numbered {number first : Nat} {line : List Char} {lines : List (List Char)} :
    (number, line) ∈ numbered first lines ↔ ∃ index, number = first + index ∧ lines[index]? = some line := by
  induction lines generalizing first with
  | nil => simp [numbered]
  | cons own lines ih =>
      rw [numbered, List.mem_cons, ih]
      constructor
      · rintro (same | ⟨index, rfl, found⟩)
        · obtain ⟨rfl, rfl⟩ := Prod.mk.inj same
          exact ⟨0, rfl, rfl⟩
        · exact ⟨index + 1, by omega, found⟩
      · rintro ⟨index, rfl, found⟩
        cases index with
        | zero => exact .inl (by simpa [eq_comm] using found)
        | succ index => exact .inr ⟨index, by omega, found⟩

theorem map_fst_numbered (first : Nat) (lines : List (List Char)) :
    (numbered first lines).map Prod.fst = List.range' first lines.length := by
  induction lines generalizing first with
  | nil => rfl
  | cons line lines ih => rw [numbered, List.map_cons, ih, List.length_cons, List.range'_succ]

theorem mem_numbered_splitFeeds {number first : Nat} {prose line : List Char} :
    (number, line) ∈ numbered first (Text.splitFeeds prose) ↔
      first ≤ number ∧ number ≤ first + prose.count '\n' ∧
        line = (Painted.onLine number first (Painted.outside prose)).text.filter (· ≠ '\n') := by
  have lineEq (index : Nat) := Painted.lineAt_text (Painted.outside prose) first index
  simp only [Painted.text_outside, Text.lineAt] at lineEq
  rw [mem_numbered]
  constructor
  · rintro ⟨index, rfl, found⟩
    obtain ⟨bound, _⟩ := List.getElem?_eq_some_iff.mp found
    rw [Text.length_splitFeeds] at bound
    refine ⟨by omega, by omega, ?_⟩
    rw [← lineEq, List.getD_eq_getElem?_getD, found]
    rfl
  · rintro ⟨lower, upper, rfl⟩
    obtain ⟨index, rfl⟩ := Nat.exists_eq_add_of_le lower
    have bound : index < (Text.splitFeeds prose).length := by
      rw [Text.length_splitFeeds]
      omega
    refine ⟨index, rfl, ?_⟩
    rw [← lineEq, List.getD_eq_getElem?_getD, List.getElem?_eq_getElem bound]
    rfl

theorem le_of_mem_linesFrom {number first : Nat} {line : List Char} {segments : List Segment}
    (member : (number, line) ∈ linesFrom first segments) : first ≤ number := by
  induction segments generalizing first with
  | nil => simp [linesFrom, proseFrom] at member
  | cons segment segments ih =>
      obtain ⟨kind, text⟩ := segment
      cases kind with
      | code => exact Nat.le_trans (Nat.le_add_right _ _) (ih member)
      | prose =>
          rw [linesFrom_prose, List.mem_append] at member
          rcases member with own | later
          · exact (mem_numbered_splitFeeds.mp own).1
          · exact Nat.le_trans (Nat.le_add_right _ _) (ih later)

section AfterProse

variable {prose : List Char} {segments : List Segment}

/-- What follows prose starts on its last line with code, and goes on with prose further down. -/
theorem lt_of_mem_linesFrom (turns : Fence.TakeTurns (⟨.prose, prose⟩ :: segments)) {number first : Nat}
    {line : List Char} (member : (number, line) ∈ linesFrom first segments) : first < number := by
  cases segments with
  | nil => simp [linesFrom, proseFrom] at member
  | cons segment segments =>
      obtain ⟨kind, block⟩ := segment
      cases kind with
      | prose => exact absurd rfl (List.isChain_cons_cons.mp turns.differ).1
      | code =>
          have feed := List.count_pos_iff.mpr (turns.feeds ⟨.code, block⟩ (by simp) rfl)
          have lower := le_of_mem_linesFrom (linesFrom_code first block segments ▸ member)
          dsimp only at feed
          omega

theorem plain_of_le (turns : Fence.TakeTurns (⟨.prose, prose⟩ :: segments)) {number first : Nat}
    (upper : number ≤ first) :
    (Painted.onLine number first (Fence.painted segments)).plain = [] := by
  cases segments with
  | nil => rfl
  | cons segment segments =>
      obtain ⟨kind, block⟩ := segment
      cases kind with
      | prose => exact absurd rfl (List.isChain_cons_cons.mp turns.differ).1
      | code =>
          have feed := List.count_pos_iff.mpr (turns.feeds ⟨.code, block⟩ (by simp) rfl)
          dsimp only at feed
          have later : Painted.onLine number (first + block.count '\n') (Fence.painted segments) = [] :=
            Painted.onLine_eq_nil (.inl (by omega))
          rw [Fence.painted_code, Painted.onLine_append, Painted.text_map, later, List.append_nil,
            Painted.plain_of_code Painted.kind_of_mem_onLine]

end AfterProse

theorem plain_outside {number first : Nat} {prose : List Char} :
    (Painted.onLine number first (Painted.outside prose)).plain =
      (Painted.onLine number first (Painted.outside prose)).text :=
  Painted.plain_of_outside Painted.kind_of_mem_onLine

/-- A line of the prose is the part of the line with its number that lies outside of fenced code. -/
theorem eq_plain_of_mem {number first : Nat} {line : List Char} {segments : List Segment}
    (turns : Fence.TakeTurns segments) (member : (number, line) ∈ linesFrom first segments) :
    number ≤ first + (Piece.join segments).count '\n' ∧
      line = (Painted.onLine number first (Fence.painted segments)).plain.filter (· ≠ '\n') := by
  induction segments generalizing first with
  | nil => simp [linesFrom, proseFrom] at member
  | cons segment segments ih =>
      obtain ⟨kind, text⟩ := segment
      rw [Piece.join_cons, List.count_append, ← Nat.add_assoc]
      cases kind with
      | code =>
          have code := Painted.plain_of_code (@Painted.kind_of_mem_onLine number first text .code)
          obtain ⟨upper, same⟩ := ih turns.tail member
          refine ⟨upper, ?_⟩
          rw [Fence.painted_code, Painted.onLine_append, Painted.plain_append, code,
            Painted.text_map, List.nil_append, same]
      | prose =>
          rw [Fence.painted_prose, Painted.onLine_append, Painted.plain_append, plain_outside,
            Painted.text_outside]
          rw [linesFrom_prose, List.mem_append] at member
          rcases member with own | later
          · obtain ⟨_, upper, rfl⟩ := mem_numbered_splitFeeds.mp own
            exact ⟨by dsimp only; omega, by rw [plain_of_le turns upper, List.append_nil]⟩
          · have below := lt_of_mem_linesFrom turns later
            obtain ⟨upper, same⟩ := ih turns.tail later
            have noneOn : Painted.onLine number first (Painted.outside text) = [] :=
              Painted.onLine_eq_nil (.inr (by rwa [Painted.text_outside]))
            exact ⟨upper, by rw [noneOn, same]; rfl⟩

theorem exists_mem_linesFrom {number first : Nat} {segments : List Segment}
    (shows : ∃ stroke ∈ Painted.onLine number first (Fence.painted segments), stroke.2 = .outside) :
    ∃ line, (number, line) ∈ linesFrom first segments := by
  induction segments generalizing first with
  | nil => simp [Fence.painted, Painted.onLine] at shows
  | cons segment segments ih =>
      obtain ⟨kind, text⟩ := segment
      obtain ⟨stroke, member, isOutside⟩ := shows
      cases kind with
      | code =>
          rw [Fence.painted_code, Painted.onLine_append, List.mem_append, Painted.text_map] at member
          rcases member with own | later
          · rw [Painted.kind_of_mem_onLine stroke own] at isOutside
            exact absurd isOutside (by decide)
          · exact ih ⟨stroke, later, isOutside⟩
      | prose =>
          rw [Fence.painted_prose, Painted.onLine_append, List.mem_append, Painted.text_outside] at member
          rw [linesFrom_prose]
          rcases member with own | later
          · have bounds : ¬(number < first ∨ first + text.count '\n' < number) := by
              intro apart
              rw [Painted.onLine_eq_nil (by rwa [Painted.text_outside])] at own
              simp at own
            exact ⟨_, List.mem_append_left _
              (mem_numbered_splitFeeds.mpr ⟨by omega, by omega, rfl⟩)⟩
          · exact (ih ⟨stroke, later, isOutside⟩).imp fun _ => List.mem_append_right _

theorem pairwise_linesFrom {first : Nat} {segments : List Segment} (turns : Fence.TakeTurns segments) :
    ((linesFrom first segments).map Prod.fst).Pairwise (· < ·) := by
  induction segments generalizing first with
  | nil => exact .nil
  | cons segment segments ih =>
      obtain ⟨kind, text⟩ := segment
      cases kind with
      | code => exact ih turns.tail
      | prose =>
          rw [linesFrom_prose, List.map_append, List.pairwise_append]
          refine ⟨?_, ih turns.tail, ?_⟩
          · rw [map_fst_numbered]
            exact List.pairwise_lt_range'
          · intro number own later below
            obtain ⟨⟨_, line⟩, isOwn, rfl⟩ := List.mem_map.mp own
            obtain ⟨⟨_, line'⟩, isLater, rfl⟩ := List.mem_map.mp below
            have upper := (mem_numbered_splitFeeds.mp isOwn).2.1
            exact Nat.lt_of_le_of_lt upper (lt_of_mem_linesFrom turns isLater)

end Review

namespace Veiled

theorem glimpse_both (char : Char) (shown plain : Bool) :
    glimpse (char, shown && plain) = glimpse (glimpse (char, shown), plain) := by
  cases shown with
  | true => rw [glimpse_shown, Bool.true_and]
  | false =>
      by_cases feed : char = '\n'
      · subst feed
        cases plain <;> rfl
      · rw [glimpse_hidden feed, Bool.false_and, glimpse_hidden feed]
        cases plain <;> rfl

/-- Through two veils is seen what the second shows of what is seen through the first. -/
theorem seen_both {first second : Veiled} (same : second.text = first.seen) :
    (first.both second).seen = second.seen := by
  induction first generalizing second with
  | nil =>
      obtain rfl := List.map_eq_nil_iff.mp same
      rfl
  | cons left first ih =>
      obtain ⟨right, second, rfl, own, later⟩ := List.map_eq_cons_iff.mp same
      rw [both_cons, seen_cons, seen_cons, ih later, glimpse_both]
      have again : (glimpse (left.1, left.2), right.2) = right := Prod.ext own.symm rfl
      rw [again]

theorem text_both {first second : Veiled} (same : first.length = second.length) :
    (first.both second).text = first.text := by
  refine List.ext_getElem (by simp [text, both, same]) fun place bound bound' => ?_
  simp [text, both]

theorem oddLines_sublist (line : Nat) (odd escaped : Bool) (veiled : Veiled) :
    (oddLines line odd escaped veiled).Sublist (List.range' line (veiled.text.count '\n' + 1)) := by
  induction veiled generalizing line odd escaped with
  | nil => cases odd <;> simp [oddLines]
  | cons stroke veiled ih =>
      obtain ⟨char, shown⟩ := stroke
      by_cases feed : char = '\n'
      · subst feed
        rw [oddLines_feed, text_cons, List.count_cons_self, List.range'_succ]
        cases odd with
        | true => exact (ih (line + 1) false false).cons_cons line
        | false => exact (ih (line + 1) false false).cons line
      · rw [oddLines_cons feed, text_cons, List.count_cons_of_ne feed]
        exact ih _ _ _

theorem exists_dollar_of_mem_oddLines {number line : Nat} {odd escaped : Bool} {veiled : Veiled}
    (member : number ∈ oddLines line odd escaped veiled) :
    (odd = true ∧ number = line) ∨
      ∃ front back, Painted.onLine number line (Painted.outside veiled.text) =
          front ++ ('$', .outside) :: back ∧
        (∀ stroke, front.getLast? = some stroke → stroke.1 ≠ '\\') ∧
        (front = [] → number = line → escaped = false) := by
  induction veiled generalizing line odd escaped with
  | nil =>
      cases odd with
      | true => exact .inl ⟨rfl, by simpa [oddLines] using member⟩
      | false => simp [oddLines] at member
  | cons stroke veiled ih =>
      obtain ⟨char, shown⟩ := stroke
      rw [text_cons, Painted.outside_cons, Painted.onLine]
      by_cases feed : char = '\n'
      · subst feed
        rw [oddLines_feed, List.mem_append] at member
        rcases member with own | later
        · cases odd with
          | true => exact .inl ⟨rfl, by simpa using own⟩
          | false => simp at own
        · have below : line ≠ number := by
            have lower := List.mem_range'_1.mp ((oddLines_sublist _ _ _ _).subset later)
            omega
          rcases ih later with ⟨isOdd, _⟩ | ⟨front, back, whole, unescaped, _⟩
          · simp at isOdd
          · exact .inr ⟨front, back, by rw [if_neg below, if_pos rfl, whole, List.nil_append],
              unescaped, fun _ same => absurd same.symm below⟩
      · rw [oddLines_cons feed] at member
        dsimp only
        rw [if_neg feed]
        rcases ih member with ⟨isOdd, rfl⟩ | ⟨front, back, whole, unescaped, first⟩
        · cases odd with
          | true => exact .inl ⟨rfl, rfl⟩
          | false =>
              obtain ⟨⟨isDollar, _⟩, free⟩ : (char = '$' ∧ shown = true) ∧ escaped = false := by
                simpa using isOdd
              exact .inr ⟨[], _, by rw [if_pos rfl, isDollar]; rfl, by simp, fun _ _ => free⟩
        · rw [whole]
          by_cases own : line = number
          · rw [if_pos own]
            refine .inr ⟨(char, .outside) :: front, back, rfl, fun stroke last => ?_, by simp⟩
            cases front with
            | nil =>
                obtain rfl := Option.some.inj last
                simpa using first rfl own.symm
            | cons next front =>
                rw [List.getLast?_cons_cons] at last
                exact unescaped stroke last
          · rw [if_neg own]
            exact .inr ⟨front, back, rfl, unescaped, fun _ same => absurd same.symm own⟩

end Veiled

namespace Review

/-- What the review shows of prose: display math is veiled first, and code is looked for behind that
veil. -/
def reviewed (prose : List Char) : Veiled :=
  (displayVeil (DisplayMath.spans prose) prose).both
    (codeVeil none (displayVeil (DisplayMath.spans prose) prose).seen)

theorem length_displayVeil (spans : List Span) (text : List Char) :
    (displayVeil spans text).length = text.length :=
  List.length_mapIdx

theorem text_displayVeil (spans : List Span) (text : List Char) :
    (displayVeil spans text).text = text := by
  refine List.ext_getElem? fun place => ?_
  rw [Veiled.text, displayVeil, List.getElem?_map, List.getElem?_mapIdx]
  cases text[place]? <;> rfl

theorem length_codeVeil_seen (prose : List Char) :
    (codeVeil none (displayVeil (DisplayMath.spans prose) prose).seen).length = prose.length := by
  rw [length_codeVeil, Veiled.seen, List.length_map, length_displayVeil]

theorem text_reviewed (prose : List Char) : (reviewed prose).text = prose := by
  rw [reviewed, Veiled.text_both, text_displayVeil]
  rw [length_displayVeil, length_codeVeil_seen]

theorem length_reviewed (prose : List Char) : (reviewed prose).length = prose.length := by
  rw [← List.length_map (f := Prod.fst)]
  exact congrArg List.length (text_reviewed prose)

theorem seen_reviewed (prose : List Char) :
    (reviewed prose).seen = blankCode (blankSpans (DisplayMath.spans prose) 0 prose) := by
  have veiled : blankSpans (DisplayMath.spans prose) 0 prose =
      (displayVeil (DisplayMath.spans prose) prose).seen := by
    rw [blankSpans_eq, displayVeil]
    simp only [Nat.zero_add]
  rw [reviewed, Veiled.seen_both (text_codeVeil _ _), veiled, blankCode_eq]

theorem getElem_reviewed {prose : List Char} {place : Nat} (bound : place < (reviewed prose).length)
    (inProse : place < prose.length)
    (inCode : place < (codeVeil none (displayVeil (DisplayMath.spans prose) prose).seen).length) :
    (reviewed prose)[place] = (prose[place], !DisplayMath.covers (DisplayMath.spans prose) place &&
      (codeVeil none (displayVeil (DisplayMath.spans prose) prose).seen)[place].2) := by
  simp only [reviewed, Veiled.both, List.getElem_zipWith, getElem_displayVeil _ inProse]

/-- Display math ends with a dollar or a blank and code with a backtick, so that no backslash is hidden
before a dollar that the review sees. -/
theorem unescaped_reviewed (prose : List Char) :
    (reviewed prose).IsChain fun first second =>
      first.2 = false → second = ('$', true) → first.1 ≠ '\\' := by
  rw [List.isChain_iff_getElem]
  intro place bound
  have inProse : place + 1 < prose.length := by rwa [← length_reviewed]
  have inCode := inProse
  rw [← length_codeVeil_seen prose] at inCode
  rw [getElem_reviewed _ (Nat.lt_of_succ_lt inProse) (Nat.lt_of_succ_lt inCode),
    getElem_reviewed _ inProse inCode]
  intro hidden shown
  simp only [Prod.mk.injEq, Bool.and_eq_true, Bool.not_eq_true'] at shown
  cases covered : DisplayMath.covers (DisplayMath.spans prose) place with
  | true =>
      obtain ⟨char, here, rim⟩ := DisplayMath.isRim_of_closing covered shown.2.1
      obtain ⟨_, get⟩ := List.getElem?_eq_some_iff.mp here
      rw [get]
      rintro rfl
      exact absurd rim (by decide)
  | false =>
      rw [covered] at hidden
      have ended := List.isChain_iff_getElem.mp (isChain_codeVeil none _) place inCode
      have seenLength : place < (displayVeil (DisplayMath.spans prose) prose).seen.length := by
        rw [Veiled.seen, List.length_map, length_displayVeil]
        exact Nat.lt_of_succ_lt inProse
      have seen : (displayVeil (DisplayMath.spans prose) prose).seen[place] = prose[place] := by
        simp only [Veiled.seen, List.getElem_map, getElem_displayVeil _ (Nat.lt_of_succ_lt inProse),
          covered]
        rfl
      rw [getElem_codeVeil _ seenLength, seen] at ended
      rw [ended (by simpa using hidden) shown.2.2]
      exact (by decide : '\x60' ≠ '\\')

def dollarsFrom (line : Nat) (segments : List Segment) : List Nat :=
  (proseFrom line segments).flatMap fun part => Veiled.oddLines part.1 false false (reviewed part.2)

theorem dollarFindings_eq (line : Nat) (prose : List Char) :
    dollarFindings line prose =
      (Veiled.oddLines line false false (reviewed prose)).map .oddDollars := by
  rw [dollarFindings, filterMap_numbered, ← seen_reviewed,
    ← Veiled.oddLines_seen (unescaped_reviewed prose) (fun _ => rfl)]

theorem checkDollars_eq (text : List Char) :
    checkDollars text = (dollarsFrom 1 (Fence.split text)).map .oddDollars := by
  rw [checkDollars_split, dollarsFrom, List.map_flatMap]
  exact List.flatMap_congr fun part _ => dollarFindings_eq part.1 part.2

theorem dollarsFrom_sublist (line : Nat) (segments : List Segment) :
    (dollarsFrom line segments).Sublist ((linesFrom line segments).map Prod.fst) := by
  rw [dollarsFrom, linesFrom, List.map_flatMap]
  refine List.Sublist.flatMap_right _ fun part _ => ?_
  rw [map_fst_numbered, Text.length_splitFeeds]
  simpa only [text_reviewed] using Veiled.oddLines_sublist part.1 false false (reviewed part.2)

theorem exists_mem_of_dollarsFrom {number first : Nat} {segments : List Segment}
    (member : number ∈ dollarsFrom first segments) :
    ∃ line, (number, line) ∈ linesFrom first segments := by
  obtain ⟨⟨_, line⟩, found, rfl⟩ :=
    List.mem_map.mp ((dollarsFrom_sublist first segments).subset member)
  exact ⟨line, found⟩

theorem dollarsFrom_code (line : Nat) (block : List Char) (rest : List Segment) :
    dollarsFrom line (⟨.code, block⟩ :: rest) = dollarsFrom (line + block.count '\n') rest := rfl

theorem dollarsFrom_prose (line : Nat) (prose : List Char) (rest : List Segment) :
    dollarsFrom line (⟨.prose, prose⟩ :: rest) =
      Veiled.oddLines line false false (reviewed prose) ++
        dollarsFrom (line + prose.count '\n') rest := rfl

theorem exists_dollar {number first : Nat} {before : Option Char} {segments : List Segment}
    (seated : Fence.Seated before segments) (turns : Fence.TakeTurns segments)
    (member : number ∈ dollarsFrom first segments) :
    ∃ front back, Painted.onLine number first (Fence.painted segments) =
        front ++ ('$', .outside) :: back ∧
      (∀ stroke, front.getLast? = some stroke → stroke.1 ≠ '\\') ∧
      (front = [] → number = first → (Piece.join segments).head? = some '$') := by
  induction segments generalizing first before with
  | nil => simp [dollarsFrom, proseFrom] at member
  | cons segment segments ih =>
      obtain ⟨kind, text⟩ := segment
      cases kind with
      | code =>
          have feed := List.count_pos_iff.mpr (turns.feeds ⟨.code, text⟩ (by simp) rfl)
          obtain ⟨_, inLines⟩ := exists_mem_of_dollarsFrom (dollarsFrom_code first text segments ▸ member)
          have lower := le_of_mem_linesFrom inLines
          dsimp only at feed
          obtain ⟨front, back, whole, unescaped, start⟩ := ih seated.tail turns.tail member
          refine ⟨Painted.onLine number first (text.map (·, .code)) ++ front, back, ?_, ?_,
            fun _ same => by omega⟩
          · rw [Fence.painted_code, Painted.onLine_append, Painted.text_map, whole, List.append_assoc]
          · -- A line that starts in code does not go on with a dollar.
            intro stroke last
            cases front with
            | cons next front =>
                rw [List.getLast?_append_of_ne_nil _ (by simp)] at last
                exact unescaped stroke last
            | nil =>
                have below : number ≠ first + text.count '\n' := by
                  intro same
                  have returns := (seated [] text segments rfl).2.2 '$' (start rfl same)
                  exact absurd returns (by decide)
                have noneOn : Painted.onLine number first (text.map (·, RegionKind.code)) = [] :=
                  Painted.onLine_eq_nil (.inr (by rw [Painted.text_map]; omega))
                rw [noneOn] at last
                simp at last
      | prose =>
          rw [Fence.painted_prose, Painted.onLine_append, Painted.text_outside]
          rw [dollarsFrom_prose, List.mem_append] at member
          rcases member with own | later
          · rcases Veiled.exists_dollar_of_mem_oddLines own with
              ⟨isOdd, _⟩ | ⟨front, back, whole, unescaped, _⟩
            · simp at isOdd
            · rw [text_reviewed] at whole
              refine ⟨front, _, by rw [whole, List.append_assoc, List.cons_append], unescaped, ?_⟩
              rintro rfl rfl
              cases text with
              | nil => simp [Painted.onLine] at whole
              | cons char text =>
                  rw [Painted.outside_cons, Painted.onLine, if_pos rfl] at whole
                  rw [(Prod.mk.inj (List.cons.inj whole).1).1]
                  rfl
          · obtain ⟨_, inLines⟩ := exists_mem_of_dollarsFrom later
            have below := lt_of_mem_linesFrom turns inLines
            obtain ⟨front, back, whole, unescaped, _⟩ := ih seated.tail turns.tail later
            have noneOn : Painted.onLine number first (Painted.outside text) = [] :=
              Painted.onLine_eq_nil (.inr (by rwa [Painted.text_outside]))
            exact ⟨front, back, by rw [noneOn, whole]; rfl, unescaped, fun _ same => by omega⟩

/-- The lines of the prose have increasing numbers, each is the part of the line with its number that
lies outside of fenced code, and every line that has such a part is among them. So is every line that
the review warns of for its dollars, in order, and each holds one that no backslash stands before. -/
theorem proseLines_exact {text : List Char}
    (breaks : ∀ char ∈ text, Text.isLineBreak char = true → char = '\n' ∨ char = '\r')
    (paired : Text.Paired text) :
    ((proseLines text).map Prod.fst).Pairwise (· < ·) ∧
      (∀ number line, (number, line) ∈ proseLines text →
        1 ≤ number ∧ number ≤ text.count '\n' + 1 ∧
          line = (Painted.onLine number 1 (Fence.painted (Fence.split text))).plain.filter (· ≠ '\n')) ∧
      (∀ number, (∃ stroke ∈ Painted.onLine number 1 (Fence.painted (Fence.split text)),
        stroke.2 = .outside) → ∃ line, (number, line) ∈ proseLines text) ∧
      ∃ numbers : List Nat, checkDollars text = numbers.map .oddDollars ∧ numbers.Pairwise (· < ·) ∧
        ∀ number ∈ numbers, ∃ front back,
          Painted.onLine number 1 (Fence.painted (Fence.split text)) =
              front ++ ('$', .outside) :: back ∧
            ∀ stroke, front.getLast? = some stroke → stroke.1 ≠ '\\' := by
  have turns : Fence.TakeTurns (Fence.split text) :=
    Fence.takeTurns_split (fun char member isBreak => by
      rcases breaks char member isBreak with rfl | rfl <;> rfl) paired.followed
  have increasing := @pairwise_linesFrom 1 _ turns
  rw [proseLines_eq_linesFrom]
  refine ⟨increasing, fun number line member => ?_, fun number => exists_mem_linesFrom, _,
    checkDollars_eq text, increasing.sublist (dollarsFrom_sublist 1 _), fun number member => ?_⟩
  · obtain ⟨upper, same⟩ := eq_plain_of_mem turns member
    rw [Fence.join_split] at upper
    exact ⟨le_of_mem_linesFrom member, by omega, same⟩
  · obtain ⟨front, back, whole, unescaped, _⟩ := exists_dollar (Fence.seated_split text) turns member
    exact ⟨front, back, whole, unescaped⟩

theorem proseLines_exact_document :
    let text :=
      "It is $5\r\n\x60\x60\x60\r\n$\r\n\x60\x60\x60\r\n$$\ny$z\n$$\n\\$1 or $2".toList
    (∀ char ∈ text, Text.isLineBreak char = true → char = '\n' ∨ char = '\r') ∧
      Text.Paired text ∧
      (proseLines text).map Prod.fst = [1, 2, 4, 5, 6, 7, 8] ∧
      checkDollars text = [.oddDollars 1, .oddDollars 8] ∧
      (∀ line, (4, line) ∈ proseLines text → line = ['\r']) ∧
      ∀ number ∈ [1, 8], ∃ front back,
        Painted.onLine number 1 (Fence.painted (Fence.split text)) =
          front ++ ('$', .outside) :: back := by
  intro text
  have kept : text.all (fun char => !Text.isLineBreak char || Text.isReturn char) = true := by
    decide +kernel
  have breaks : ∀ char ∈ text, Text.isLineBreak char = true → char = '\n' ∨ char = '\r' := by
    intro char member isBreak
    have own := List.all_eq_true.mp kept char member
    rw [isBreak] at own
    simpa [Text.isReturn, or_comm] using own
  have paired : Text.Paired text := ⟨by decide +kernel, by decide +kernel⟩
  have found : checkDollars text = [.oddDollars 1, .oddDollars 8] := by decide +kernel
  obtain ⟨_, lines, _, numbers, warned, _, dollars⟩ := proseLines_exact breaks paired
  refine ⟨breaks, paired, by decide +kernel, found, fun line member => ?_, fun number member => ?_⟩
  · rw [(lines 4 line member).2.2]
    decide +kernel
  · have injective : Function.Injective Finding.oddDollars := fun first second same => by
      simpa using same
    obtain rfl : numbers = [1, 8] := injective.list_map (warned.symm.trans found)
    obtain ⟨front, back, whole, _⟩ := dollars number member
    exact ⟨front, back, whole⟩

end Review

end DollarMath
