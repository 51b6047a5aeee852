import DollarMath.Proofs.Conversion.DelimiterLines
import DollarMath.Proofs.Review.DelimiterRows
import DollarMath.Proofs.Review.ProseLines

/-!
The review counts the delimiter lines of a whole document, while the regions pair them up within each
part of the prose. So the two agree unless several parts have a delimiter line left over.
-/

namespace DollarMath.Review

/-- Every delimiter line of the prose is display math among the regions of the document. -/
def ShowsDelimiters (text : List Char) : Prop :=
  ∀ line ∈ proseLines text, DisplayMath.isDelimiterLine line.2 = true →
    Painted.IsDisplayAt line.1 1 (Piece.paint (Document.regions text))

instance (text : List Char) : Decidable (ShowsDelimiters text) :=
  inferInstanceAs (Decidable (∀ line ∈ proseLines text, _))

theorem mem_linesFrom {first : Nat} {segments : List Segment} {part line : Nat × List Char}
    (inProse : part ∈ proseFrom first segments)
    (inPart : line ∈ numbered part.1 (Text.splitFeeds part.2)) : line ∈ linesFrom first segments :=
  List.mem_flatMap.mpr ⟨part, inProse, inPart⟩

/-- The line that a text starts on is empty if nothing but a line feed starts the text. -/
theorem eq_nil_of_feed {first : Nat} {line : List Char} {segments : List Segment}
    (turns : Fence.TakeTurns segments) (member : (first, line) ∈ linesFrom first segments)
    (feed : ∀ char, (Piece.join segments).head? = some char → char = '\n') : line = [] := by
  obtain ⟨_, rfl⟩ := eq_plain_of_mem turns member
  have textEq := Fence.text_painted segments
  cases paintedEq : Fence.painted segments with
  | nil => rfl
  | cons stroke painted =>
      obtain ⟨char, kind⟩ := stroke
      rw [← textEq, paintedEq] at feed
      obtain rfl : char = '\n' := feed char rfl
      have noneOn : Painted.onLine first (first + 1) painted = [] :=
        Painted.onLine_eq_nil (.inl (by omega))
      rw [Painted.onLine, if_pos rfl, if_pos rfl, noneOn, Painted.plain]
      cases kind <;> simp

theorem lt_of_ended {prose : List Char} {first number : Nat} {line : List Char}
    (member : (number, line) ∈ numbered first (Text.splitFeeds prose)) (filled : line ≠ [])
    (ended : prose.getLast? = some '\n') : number < first + prose.count '\n' := by
  obtain ⟨_, upper, lineEq⟩ := mem_numbered_splitFeeds.mp member
  refine Nat.lt_of_le_of_ne upper fun same => filled ?_
  have noneOn := Painted.onLine_ended (by rwa [Painted.text_outside] :
    (Painted.outside prose).text.getLast? = some '\n') first
  rw [Painted.text_outside] at noneOn
  rw [lineEq, same, noneOn]
  rfl

/-- Prose after code starts with a line feed, so no line that holds something is the one it
starts on. -/
theorem ne_first_of_code {before : Option Char} {text : List Char} {segments : List Segment}
    {first : Nat} {line : Nat × List Char}
    (seated : Fence.Seated before (⟨.code, text⟩ :: segments))
    (turns : Fence.TakeTurns segments)
    (feeds : ∀ char ∈ Piece.join segments, Text.isLineBreak char = true → char = '\n')
    (inLines : line ∈ linesFrom first segments) (filled : line.2 ≠ []) : line.1 ≠ first := by
  intro same
  refine filled (eq_nil_of_feed turns (same ▸ inLines) fun char head => ?_)
  have isReturn := (seated [] text segments rfl).2.2 char head
  refine feeds char (List.mem_of_head? head) ?_
  by_contra other
  rw [Text.not_isReturn_of_not_isLineBreak (by simpa using other)] at isReturn
  exact absurd isReturn (by decide)

/-- Prose that code follows ends with a line feed, so no line of it that holds something goes on
after it. -/
theorem onLine_after_prose {before : Option Char} {text : List Char} {segments : List Segment}
    {first : Nat} {line : Nat × List Char}
    (seated : Fence.Seated before (⟨.prose, text⟩ :: segments))
    (turns : Fence.TakeTurns (⟨.prose, text⟩ :: segments))
    (feeds : ∀ char ∈ text, Text.isLineBreak char = true → char = '\n')
    (inPart : line ∈ numbered first (Text.splitFeeds text)) (filled : line.2 ≠ []) :
    Painted.onLine line.1 (first + text.count '\n')
      (Piece.paint (segments.flatMap Document.segmentRegions)) = [] := by
  cases segments with
  | nil => rfl
  | cons next segments =>
      obtain ⟨other, block⟩ := next
      obtain rfl : other = .code := by
        have differ := (List.isChain_cons_cons.mp turns.differ).1
        cases other with
        | code => rfl
        | prose => exact absurd rfl differ
      have notNil : text ≠ [] := by
        rintro rfl
        exact filled (congrArg Prod.snd (List.mem_singleton.mp inPart))
      have atLine := (seated [⟨.prose, text⟩] block segments rfl).1
      rw [Piece.join_cons, Piece.join_nil, List.append_nil, Text.lastOr_of_ne_nil notNil] at atLine
      obtain ⟨init, last, rfl⟩ := (List.eq_nil_or_concat' text).resolve_left notNil
      rw [List.getLast?_concat] at atLine
      have feed := feeds last (by simp) (atLine last rfl)
      refine Painted.onLine_eq_nil (.inl (lt_of_ended inPart filled ?_))
      rw [List.getLast?_concat, feed]

theorem onLine_of_part {before : Option Char} {segments : List Segment} {first : Nat}
    (seated : Fence.Seated before segments) (turns : Fence.TakeTurns segments)
    (feeds : ∀ char ∈ Piece.join segments, Text.isLineBreak char = true → char = '\n')
    {part line : Nat × List Char} (inProse : part ∈ proseFrom first segments)
    (inPart : line ∈ numbered part.1 (Text.splitFeeds part.2)) (filled : line.2 ≠ []) :
    Painted.onLine line.1 first (Piece.paint (segments.flatMap Document.segmentRegions)) =
      Painted.onLine line.1 part.1 (Piece.paint (Document.proseRegions part.2)) := by
  induction segments generalizing first before with
  | nil => simp [proseFrom] at inProse
  | cons segment segments ih =>
      obtain ⟨kind, text⟩ := segment
      rw [Piece.join_cons] at feeds
      have restFeeds : ∀ char ∈ Piece.join segments, Text.isLineBreak char = true → char = '\n' :=
        fun char member => feeds char (List.mem_append_right _ member)
      have later := @ih (Text.lastOr before text) (first + text.count '\n') seated.tail turns.tail
        restFeeds
      have ownText : Painted.text (Piece.paint (Document.segmentRegions ⟨kind, text⟩)) = text := by
        rw [Painted.text_paint, Document.join_segmentRegions]
      rw [List.flatMap_cons, Piece.paint_append, Painted.onLine_append, ownText]
      cases kind with
      | code =>
          have inRest : part ∈ proseFrom (first + text.count '\n') segments := inProse
          have inLines := mem_linesFrom inRest inPart
          have lower := le_of_mem_linesFrom inLines
          have below := ne_first_of_code seated turns.tail restFeeds inLines filled
          rw [Painted.onLine_eq_nil (.inr (by rw [ownText]; omega)), List.nil_append, later inRest]
      | prose =>
          rcases List.mem_cons.mp (inProse : part ∈ (first, text) :: proseFrom _ segments) with
            rfl | inRest
          · rw [onLine_after_prose seated turns
              (fun char member => feeds char (List.mem_append_left _ member)) inPart filled,
              List.append_nil]
            rfl
          · have below := lt_of_mem_linesFrom turns (mem_linesFrom inRest inPart)
            rw [Painted.onLine_eq_nil (.inr (by rwa [ownText])), List.nil_append, later inRest]

theorem mem_of_mem_proseFrom {first : Nat} {segments : List Segment} {part : Nat × List Char}
    (member : part ∈ proseFrom first segments) : ⟨.prose, part.2⟩ ∈ segments := by
  induction segments generalizing first with
  | nil => simp [proseFrom] at member
  | cons segment segments ih =>
      rw [proseFrom] at member
      split at member
      next isProse =>
        rcases List.mem_cons.mp member with rfl | later
        · rw [← isProse]
          exact List.mem_cons_self
        · exact List.mem_cons_of_mem _ (ih later)
      next => exact List.mem_cons_of_mem _ (ih member)

/-- How many parts of the prose have a delimiter line left over once all others pair up. -/
def leftOver (text : List Char) : Nat :=
  (prose text).countP fun part => delimiters part.2 % 2 = 1

section Feeds

variable {text : List Char}
  (feeds : ∀ char ∈ text, Text.isLineBreak char = true → char = '\n')

include feeds

theorem takeTurns_of_feeds : Fence.TakeTurns (Fence.split text) := by
  refine Fence.takeTurns_split (fun char member isBreak => ?_) ?_
  · rw [feeds char member isBreak]
    rfl
  · refine List.isChain_iff_getElem.mpr fun place bound isReturn => ?_
    have feed := feeds text[place] (List.getElem_mem _) (by rw [isReturn]; rfl)
    rw [isReturn] at feed
    exact absurd feed (by decide)

theorem showsDelimiters_iff : ShowsDelimiters text ↔ leftOver text = 0 := by
  have turns := takeTurns_of_feeds feeds
  have painted : Piece.paint (Document.regions text) =
      Piece.paint ((Fence.split text).flatMap Document.segmentRegions) := Piece.paint_fuse _
  rw [ShowsDelimiters, proseLines, List.forall_mem_flatMap, leftOver, List.countP_eq_zero]
  refine forall_congr' fun part => forall_congr' fun member => ?_
  rw [prose_eq_proseFrom] at member
  have inText : ∀ char ∈ part.2, char ∈ text := by
    intro char inPart
    rw [← Fence.join_split text]
    exact List.mem_flatMap.mpr ⟨_, mem_of_mem_proseFrom member, inPart⟩
  have own := shows_prose_iff (fun char inPart => feeds char (inText char inPart)) part.1
  rw [decide_eq_true_iff, Nat.mod_two_not_eq_one, ← own]
  refine forall_congr' fun line => forall_congr' fun inPart => forall_congr' fun delimiter => ?_
  have filled : line.2 ≠ [] := by
    intro isNil
    rw [isNil] at delimiter
    exact absurd delimiter (by decide)
  rw [Painted.IsDisplayAt, Painted.IsDisplayAt, painted, onLine_of_part (Fence.seated_split text)
    turns (by rwa [Fence.join_split]) member inPart filled]

end Feeds

theorem length_delimiters (parts : List (Nat × List Char)) :
    ((parts.flatMap fun part => numbered part.1 (Text.splitFeeds part.2)).filter fun line =>
        DisplayMath.isDelimiterLine line.2).length % 2 =
      (parts.countP fun part => delimiters part.2 % 2 = 1) % 2 := by
  induction parts with
  | nil => rfl
  | cons part parts ih =>
      rw [List.flatMap_cons, List.filter_append, List.length_append, countP_numbered, ← delimiters,
        List.countP_cons]
      split
      next odd =>
        have own : delimiters part.2 % 2 = 1 := by simpa using odd
        omega
      next even =>
        have own : ¬delimiters part.2 % 2 = 1 := by simpa using even
        omega

theorem checkDelimiters_eq_nil (text : List Char) :
    checkDelimiters text = [] ↔ leftOver text % 2 = 0 := by
  have parity := length_delimiters (prose text)
  rw [← leftOver, ← proseLines] at parity
  rw [checkDelimiters, ← parity]
  split
  next last _ =>
    split
    next odd => simp [odd]
    next even => simpa using even
  next unfound => simp [List.getLast?_eq_none_iff.mp unfound]

/-- All delimiter lines of a document are shown as display math just if no part of the prose has one
left over, while the review is content if the parts that have one are even in number. So the two
agree where at most one part has one. -/
theorem checkDelimiters_eq_nil_iff {text : List Char}
    (feeds : ∀ char ∈ text, Text.isLineBreak char = true → char = '\n') :
    (ShowsDelimiters text ↔ leftOver text = 0) ∧
      (checkDelimiters text = [] ↔ leftOver text % 2 = 0) ∧
      (leftOver text ≤ 1 → (checkDelimiters text = [] ↔ ShowsDelimiters text)) := by
  have shown := showsDelimiters_iff feeds
  have content := checkDelimiters_eq_nil text
  refine ⟨shown, content, fun atMost => ?_⟩
  rw [shown, content]
  omega

theorem checkDelimiters_eq_nil_iff_fenced :
    let text := "$$\na\n$$\n\x60\x60\x60\n$$\n\x60\x60\x60\n$$\nb".toList
    (∀ char ∈ text, Text.isLineBreak char = true → char = '\n') ∧ leftOver text ≤ 1 ∧
      (checkDelimiters text = [] ↔ ShowsDelimiters text) ∧
      checkDelimiters text = [.unpairedDelimiter 7] := by
  intro text
  have feeds : ∀ char ∈ text, Text.isLineBreak char = true → char = '\n' :=
    Text.eq_feed_of_all (by decide +kernel)
  have atMost : leftOver text ≤ 1 := by decide +kernel
  exact ⟨feeds, atMost, (checkDelimiters_eq_nil_iff feeds).2.2 atMost, by decide +kernel⟩

/-- Two delimiter lines with fenced code between them are two for the review, but no pair. -/
theorem checkDelimiters_parted :
    (∀ char ∈ "$$\n\x60\x60\x60\nx\n\x60\x60\x60\n$$".toList,
      Text.isLineBreak char = true → char = '\n') ∧
      checkDelimiters "$$\n\x60\x60\x60\nx\n\x60\x60\x60\n$$".toList = [] ∧
      ¬ShowsDelimiters "$$\n\x60\x60\x60\nx\n\x60\x60\x60\n$$".toList :=
  ⟨Text.eq_feed_of_all (by decide +kernel), by decide +kernel, by decide +kernel⟩

end DollarMath.Review
