import DollarMath.Proofs.Conversion.Frozen
import DollarMath.Proofs.Conversion.Layout
import DollarMath.Proofs.Conversion.Returns
import DollarMath.Proofs.Document.LineCuts
import DollarMath.Proofs.Document.WithReturns
import DollarMath.Proofs.Review.Prose

/-!
The lines of two dollars in a converted document, which are the first and the last lines of its
display math.
-/

namespace DollarMath

def Text.firstBreak : List Char → List Char
  | [] => []
  | '\r' :: '\n' :: _ => ['\r', '\n']
  | char :: _ => if isLineBreak char then [char] else []

namespace DisplayMath

structure Place where
  offset : Nat
  text : List Char
  lineBreak : List Char
deriving DecidableEq

def places (offset : Nat) : List Region → List Place
  | [] => []
  | region :: regions =>
    let later := places (offset + region.text.length) regions
    if region.kind = .display then
      ⟨offset, region.text, Text.firstBreak (Piece.join regions)⟩ :: later
    else later

namespace Place

def span (place : Place) : Span :=
  ⟨place.offset, place.offset + place.text.length + place.lineBreak.length⟩

def opening (place : Place) : Span :=
  ⟨place.offset, place.offset + ((Text.lines place.text).headD []).length⟩

def closing (place : Place) : Span :=
  ⟨place.offset + (place.text.length - ((Text.lines place.text).getLastD []).length),
    place.offset + place.text.length + place.lineBreak.length⟩

end Place

def delimiterSpans (offset : Nat) : List (List Char) → List Span
  | [] => []
  | line :: lines =>
    let later := delimiterSpans (offset + line.length) lines
    if isDelimiterLine line then ⟨offset, offset + line.length⟩ :: later else later

def blockSpans (text : List Char) : List Span :=
  (spans text).filter fun span => (span.slice text).any Text.isLineBreak

theorem isDelimiterLine_feed (line : List Char) :
    isDelimiterLine (line ++ ['\n']) = isDelimiterLine line := by
  rw [isDelimiterLine, isDelimiterLine, Text.strip_append_blank line (by decide)]

theorem delimiterSpans_append (offset : Nat) (first second : List (List Char)) :
    delimiterSpans offset (first ++ second) = delimiterSpans offset first ++
      delimiterSpans (offset + first.flatten.length) second := by
  induction first generalizing offset with
  | nil => rfl
  | cons line first ih =>
      simp only [List.cons_append, delimiterSpans, ih, List.flatten_cons, List.length_append,
        Nat.add_assoc]
      split
      · rfl
      · rfl

theorem delimiterSpans_eq_nil {offset : Nat} {lines : List (List Char)}
    (others : ∀ line ∈ lines, isDelimiterLine line = false) : delimiterSpans offset lines = [] := by
  induction lines generalizing offset with
  | nil => rfl
  | cons line lines ih =>
      rw [delimiterSpans, others line (by simp)]
      exact ih fun other member => others other (by simp [member])

theorem length_delimiterSpans (offset : Nat) (lines : List (List Char)) :
    (delimiterSpans offset lines).length = lines.countP isDelimiterLine := by
  induction lines generalizing offset with
  | nil => rfl
  | cons line lines ih =>
      rw [delimiterSpans, List.countP_cons]
      split
      next => simp [ih]
      next => simp [ih]

end DisplayMath

/-- Two dollars side by side come only after a sign that is no blank, also if a dollar follows. So
no line of the text is one of two dollars. -/
def Loose (text : List Char) : Prop :=
  ∀ front, front ++ ['$', '$'] <+: text ++ ['$'] →
    ∃ char, front.getLast? = some char ∧ Text.isBlank char = false

namespace Loose

theorem nil : Loose [] := by
  intro front pair
  have lengths := pair.length_le
  simp only [List.length_append, List.length_cons, List.length_nil] at lengths
  omega

theorem eq_dollar {front text : List Char} {char : Char}
    (same : front ++ ['$', '$'] = text ++ [char]) : char = '$' ∧ front ++ ['$'] = text := by
  have split : (front ++ ['$']) ++ ['$'] = text ++ [char] := by simpa using same
  obtain ⟨init, last⟩ := List.append_inj' split rfl
  exact ⟨(List.singleton_inj.mp last).symm, init⟩

theorem plain {text : List Char} {char : Char} (loose : Loose text) (notDollar : char ≠ '$') :
    Loose (text ++ [char]) := by
  intro front pair
  rcases List.prefix_concat_iff.mp pair with whole | inside
  · obtain ⟨_, same⟩ := eq_dollar whole
    exact absurd (List.singleton_inj.mp (List.append_inj' same rfl).2).symm notDollar
  · rcases List.prefix_concat_iff.mp inside with whole | inText
    · exact absurd (eq_dollar whole).1 notDollar
    · exact loose front (inText.trans (List.prefix_append _ _))

theorem math {text body : List Char} (loose : Loose text) (isBody : InlineMath.IsBody body) :
    Loose (text ++ ('$' :: body ++ ['$'])) := by
  obtain ⟨last, lastEq, notBlank⟩ := isBody.ended
  obtain ⟨init, rfl⟩ := List.getLast?_eq_some_iff.mp lastEq
  intro front pair
  have split : text ++ ('$' :: (init ++ [last]) ++ ['$']) ++ ['$'] =
      ((text ++ ['$']) ++ (init ++ [last])) ++ ['$'] ++ ['$'] := by simp
  rw [split] at pair
  rcases List.prefix_concat_iff.mp pair with whole | inside
  · obtain ⟨_, same⟩ := eq_dollar whole
    obtain ⟨frontEq, _⟩ := List.append_inj' same rfl
    exact ⟨last, by rw [frontEq, ← List.append_assoc, List.getLast?_concat], notBlank⟩
  · rcases List.prefix_concat_iff.mp inside with whole | inMath
    · obtain ⟨_, same⟩ := eq_dollar whole
      rw [← List.append_assoc] at same
      obtain ⟨_, lastDollar⟩ := List.append_inj' same rfl
      refine absurd ?_ isBody.plain
      simp [← List.singleton_inj.mp lastDollar]
    · -- The body holds no dollar, so the pair ends before it.
      rcases List.prefix_or_prefix_of_prefix inMath (List.prefix_append _ _) with inText | later
      · exact loose front inText
      · obtain ⟨rest, same⟩ := later
        obtain rfl | ⟨others, final, rfl⟩ := List.eq_nil_or_concat' rest
        · exact loose front ⟨[], by rw [List.append_nil, ← same, List.append_nil]⟩
        · rw [← List.append_assoc] at same
          obtain ⟨rfl, _⟩ := eq_dollar same.symm
          rw [← same, List.append_assoc] at inMath
          have inBody := ((List.prefix_append_right_inj _).mp inMath).subset (a := '$') (by simp)
          exact absurd inBody isBody.plain

theorem not_isDelimiterLine {cut : List Char → List (List Char)} (cutter : Text.IsCutter cut)
    {text : List Char} (loose : Loose text) :
    ∀ line ∈ cut text, DisplayMath.isDelimiterLine line = false := by
  intro line member
  by_contra delimiter
  have stripped : Text.strip line = ['$', '$'] := by
    simpa [DisplayMath.isDelimiterLine] using delimiter
  obtain ⟨above, below, split⟩ := List.append_of_mem member
  obtain ⟨left, right, whole, leftBlank, _⟩ := Text.exists_strip line
  have spelled := cutter.flatten text
  rw [split, List.flatten_append, List.flatten_cons, whole, stripped] at spelled
  have pair : (above.flatten ++ left) ++ ['$', '$'] <+: text ++ ['$'] := by
    refine ⟨right ++ below.flatten ++ ['$'], ?_⟩
    rw [← spelled]
    simp
  obtain ⟨char, last, notBlank⟩ := loose _ pair
  by_cases empty : left = []
  · rw [empty, List.append_nil] at last
    have isBreak := cutter.broken text above line below split char last
    rw [Text.isBlank_of_isLineBreak isBreak] at notBlank
    exact absurd notBlank (by decide)
  · rw [List.getLast?_append_of_ne_nil _ empty] at last
    rw [leftBlank char (List.mem_of_getLast? last)] at notBlank
    exact absurd notBlank (by decide)

end Loose

def IsEnded (text : List Char) : Prop :=
  text = [] ∨ ∃ newline rest, IsLineEnd newline ∧ text = newline ++ rest

theorem IsEnded.blank {text : List Char} (ended : IsEnded text) :
    ∀ char ∈ Text.firstBreak text, Text.isBlank char = true := by
  rcases ended with rfl | ⟨newline, rest, rfl | rfl, rfl⟩
  · simp [Text.firstBreak]
  · exact List.all_eq_true.mp rfl
  · exact List.all_eq_true.mp rfl

/-- A text in which blocks of display math stand on lines of their own between loose text, with the
places of the blocks. -/
inductive Layout : (offset : Nat) → List Char → List DisplayMath.Place → Prop
  | loose {offset text} : Loose text → Layout offset text []
  | block {offset front text places} {block : DisplayMath.Block} : Loose front →
      StartsLine (Text.lastOr none front) → block.IsWhole → IsEnded text →
      Layout (offset + front.length + block.text.length) text places →
      Layout offset (front ++ (block.text ++ text))
        (⟨offset + front.length, block.text, Text.firstBreak text⟩ :: places)

namespace DisplayMath

theorem places_attach_other {region : Region} (other : region.kind ≠ .display) (offset : Nat)
    (regions : List Region) :
    places offset (Piece.attach region regions) =
      places (offset + region.text.length) regions := by
  cases regions with
  | nil =>
      rw [Piece.attach]
      split
      · rfl
      · simp [places, other]
  | cons next regions =>
      rw [Piece.attach]
      split
      next empty => rw [List.isEmpty_iff.mp empty, List.length_nil, Nat.add_zero]
      next =>
        split
        next same =>
          have otherNext : next.kind ≠ .display := same ▸ other
          rw [places, places, if_neg other, if_neg otherNext, List.length_append, Nat.add_assoc]
        next => rw [places, if_neg other]

theorem places_attach_display {text : List Char} (filled : text ≠ []) {painted : Painted}
    (apart : painted.firstKind ≠ some .display) (offset : Nat) :
    places offset (Piece.attach (Region.display text) (Piece.ofPaint painted)) =
      ⟨offset, text, Text.firstBreak painted.text⟩ ::
        places (offset + text.length) (Piece.ofPaint painted) := by
  have spelled : Piece.join (Piece.ofPaint painted) = painted.text := by
    rw [← Painted.text_paint, Piece.paint_ofPaint]
  have own : (Region.display text).text.isEmpty = false := by simpa [Region.display] using filled
  rw [← Painted.firstKind_ofPaint] at apart
  rw [← spelled]
  generalize Piece.ofPaint painted = pieces at apart
  cases pieces with
  | nil =>
      rw [Piece.attach, own]
      rfl
  | cons next regions =>
      have differ : (Region.display text).kind ≠ next.kind := by
        intro same
        exact apart (congrArg some same.symm)
      rw [Piece.attach, own, if_neg differ]
      rfl

end DisplayMath

namespace Laid

theorem isEnded {text : List Char} (paired : Text.Paired text)
    (follow : ∀ char, text.head? = some char → Text.isReturn char = true) : IsEnded text := by
  cases text with
  | nil => exact .inl rfl
  | cons char rest =>
      have isReturn := follow char rfl
      simp only [Text.isReturn, Bool.or_eq_true, beq_iff_eq] at isReturn
      right
      rcases isReturn with rfl | rfl
      · cases rest with
        | nil => exact absurd rfl paired.ended
        | cons next rest =>
            obtain rfl := paired.head_eq
            exact ⟨['\r', '\n'], rest, .inr rfl, rfl⟩
      · exact ⟨['\n'], rest, .inl rfl, rfl⟩

theorem firstKind_ne {painted : Painted} (laid : Laid (some '$') painted)
    (follow : ∀ char, painted.text.head? = some char → Text.isReturn char = true) :
    painted.firstKind ≠ some .display := by
  cases laid with
  | nil => simp [Painted.firstKind]
  | plain notDisplay _ _ => simpa [Painted.firstKind] using notDisplay
  | math _ _ => exact absurd (follow '$' rfl) (by decide)
  | block _ atStart _ _ =>
      rcases atStart with absent | feed
      · simp at absent
      · simp at feed

/-- Painted text that is laid out reads as a layout whose places are those of its regions. -/
theorem layout {before : Option Char} {painted : Painted} (laid : Laid before painted)
    (paired : Text.Paired painted.text) {front : List Char} (loose : Loose front)
    (starts : StartsLine before → StartsLine (Text.lastOr none front)) (offset : Nat) :
    Layout offset (front ++ painted.text)
      (DisplayMath.places (offset + front.length) (Piece.ofPaint painted)) := by
  induction laid generalizing front offset with
  | nil =>
      rw [Painted.text_nil, List.append_nil]
      exact .loose loose
  | @plain _ char kind rest notDisplay notDollar _ ih =>
      have shorter : Text.Paired rest.text := @Text.Paired.of_append [char] _ paired
      have later := ih shorter (loose.plain notDollar) (by simp) offset
      rw [Piece.ofPaint_cons, DisplayMath.places_attach_other notDisplay]
      simpa [Nat.add_assoc] using later
  | @math _ body rest isBody _ ih =>
      rw [Painted.text_append] at paired
      have later := ih paired.of_append (loose.math isBody) (by simp) offset
      rw [Piece.paint_cons, Piece.paint_nil, List.append_nil, Piece.ofPaint_map_append,
        DisplayMath.places_attach_other (by simp [Region.dollars])]
      simpa [Region.dollars, Nat.add_assoc] using later
  | @block _ rest block whole atStart follow later ih =>
      rw [Painted.text_append] at paired
      have filled : block.text ≠ [] := by simp [DisplayMath.Block.text, DisplayMath.Block.delimiter]
      have onward := ih paired.of_append .nil (fun _ => .inl rfl)
        (offset + front.length + block.text.length)
      have ended := isEnded paired.of_append follow
      have stacked := Layout.block loose (starts atStart) whole ended onward
      have placed := DisplayMath.places_attach_display filled (later.firstKind_ne follow)
        (offset + front.length)
      rw [Painted.text_append, Painted.text_paint, Piece.paint_cons, Piece.paint_nil,
        List.append_nil, Piece.ofPaint_map_append]
      change Layout offset (front ++ (Piece.join [Region.display block.text] ++ rest.text))
        (DisplayMath.places (offset + front.length)
          (Piece.attach (Region.display block.text) (Piece.ofPaint rest)))
      rw [placed]
      simpa [Region.display] using stacked

end Laid

namespace DisplayMath.Block

variable {cut : List Char → List (List Char)} {block : Block}

def inside (block : Block) : List Char :=
  block.indent ++ block.body ++ block.newline

theorem text_eq (block : Block) :
    block.text = (block.delimiter ++ block.newline) ++ (block.inside ++ block.delimiter) := by
  simp [text, inside]

theorem length_text (block : Block) : block.text.length =
    (block.delimiter ++ block.newline).length + block.inside.length + block.delimiter.length := by
  rw [text_eq]
  simp only [List.length_append]
  omega

theorem isDelimiterLine_delimiter (whole : block.IsWhole) {ending : List Char}
    (blank : ∀ char ∈ ending, Text.isBlank char = true) :
    isDelimiterLine (block.delimiter ++ ending) = true := by
  have indented : ∀ char ∈ block.indent, Text.isBlank char = true :=
    fun char member => Text.isBlank_of_isIndent (whole.indented char member)
  have stripped : Text.strip (block.delimiter ++ ending) = ['$', '$'] :=
    Text.strip_between indented blank (by simp) (by simp; decide) (by simp; decide)
  simp [isDelimiterLine, stripped]

theorem cut_delimiter (cutter : Text.IsCutter cut) (whole : block.IsWhole) {ending : List Char}
    (ends : ending = [] ∨ IsLineEnd ending) :
    cut (block.delimiter ++ ending) = [block.delimiter ++ ending] := by
  refine cutter.single _ _ (by simp [delimiter]) ?_ ends
  intro char member
  rcases List.mem_append.mp member with inIndent | inMarks
  · exact not_isLineBreak_of_isIndent (whole.indented char inIndent)
  · obtain rfl : char = '$' := by simpa using inMarks
    decide

theorem others_of_free (cutter : Text.IsCutter cut) {text : List Char} (free : '$' ∉ text) :
    ∀ line ∈ cut text, isDelimiterLine line = false := by
  intro line member
  refine not_isDelimiterLine (not_doubled fun dollar => free ?_)
  rw [← cutter.flatten text]
  exact List.mem_flatten.mpr ⟨line, member, dollar⟩

theorem cut_text (cutter : Text.IsCutter cut) (whole : block.IsWhole) {text : List Char}
    (ended : IsEnded text) :
    ∃ between above after, cut (block.text ++ text) = (block.delimiter ++ block.newline) ::
        (between ++ (block.delimiter ++ Text.firstBreak text) :: after) ∧
      cut text = above ++ after ∧
      between.flatten = block.inside ∧ (∀ line ∈ between, isDelimiterLine line = false) ∧
      above.flatten = Text.firstBreak text ∧ (∀ line ∈ above, isDelimiterLine line = false) := by
  have newlineFree : '$' ∉ block.newline := by
    rcases whole.lineEnd with newline | newline
    · simp [newline]
    · simp [newline]
  have insideFree : '$' ∉ block.inside := by
    simp only [inside, List.mem_append, not_or]
    refine ⟨⟨fun member => ?_, whole.plain⟩, newlineFree⟩
    exact absurd (whole.indented '$' member) (by decide)
  have fed (front : List Char) : (front ++ block.newline).getLast? = some '\n' := by
    rcases whole.lineEnd with newline | newline
    · simp [newline]
    · simp [newline]
  have split : cut (block.text ++ text) = (block.delimiter ++ block.newline) ::
      (cut block.inside ++ cut (block.delimiter ++ text)) := by
    have parts : block.text ++ text = (block.delimiter ++ block.newline) ++
        (block.inside ++ (block.delimiter ++ text)) := by
      rw [text_eq]
      simp
    rw [parts, cutter.append _ _ (fed _), cutter.append block.inside _ (fed _),
      cut_delimiter cutter whole (.inr whole.lineEnd)]
    rfl
  rcases ended with rfl | ⟨newline, rest, lineEnd, rfl⟩
  · refine ⟨cut block.inside, [], [], ?_, by simp [cutter.nil], cutter.flatten _,
      others_of_free cutter insideFree, rfl, by simp⟩
    rw [split, cut_delimiter cutter whole (.inl rfl)]
    rfl
  · have broken : Text.firstBreak (newline ++ rest) = newline := by
      rcases lineEnd with rfl | rfl
      · rfl
      · rfl
    have feed (front : List Char) : (front ++ newline).getLast? = some '\n' := by
      rcases lineEnd with rfl | rfl
      · simp
      · simp
    have free : '$' ∉ newline := by
      rcases lineEnd with rfl | rfl
      · decide
      · decide
    refine ⟨cut block.inside, cut newline, cut rest, ?_, cutter.append _ _ (feed []),
      cutter.flatten _, others_of_free cutter insideFree, ?_, others_of_free cutter free⟩
    · rw [split, broken, ← List.append_assoc, cutter.append _ _ (feed _),
        cut_delimiter cutter whole (.inr lineEnd)]
      rfl
    · rw [broken]
      exact cutter.flatten _

theorem lines_text (whole : block.IsWhole) :
    ∃ between, Text.lines block.text =
      (block.delimiter ++ block.newline) :: (between ++ [block.delimiter]) := by
  obtain ⟨between, above, after, cutEq, rest, _⟩ := cut_text Text.isCutter_lines whole (.inl rfl)
  have last : after = [] := (List.append_eq_nil_iff.mp rest.symm).2
  refine ⟨between, ?_⟩
  simpa [last, Text.firstBreak] using cutEq

end DisplayMath.Block

namespace Layout

variable {cut : List Char → List (List Char)} {offset : Nat} {text : List Char}
  {places : List DisplayMath.Place}

theorem cut_append (cutter : Text.IsCutter cut) {front : List Char}
    (atStart : StartsLine (Text.lastOr none front)) (rest : List Char) :
    cut (front ++ rest) = cut front ++ cut rest := by
  by_cases empty : front = []
  · rw [empty, cutter.nil]
    rfl
  · rw [Text.lastOr_of_ne_nil empty] at atStart
    rcases atStart with absent | feed
    · exact absurd (List.getLast?_eq_none_iff.mp absent) empty
    · exact cutter.append _ _ feed

/-- The delimiter lines of a layout, cut at all line breaks or at line feeds, are the first and last
lines of its places. -/
theorem delimiterSpans (cutter : Text.IsCutter cut) (layout : Layout offset text places) :
    DisplayMath.delimiterSpans offset (cut text) =
      places.flatMap fun place => [place.opening, place.closing] := by
  induction layout with
  | loose loose =>
      rw [DisplayMath.delimiterSpans_eq_nil (loose.not_isDelimiterLine cutter)]
      rfl
  | @block offset front text places block loose atStart whole ended _ ih =>
      obtain ⟨between, above, after, blockEq, textEq, inside, others, ending, skipped⟩ :=
        DisplayMath.Block.cut_text cutter whole ended
      obtain ⟨middle, linesEq⟩ := DisplayMath.Block.lines_text whole
      rw [textEq, DisplayMath.delimiterSpans_append, DisplayMath.delimiterSpans_eq_nil skipped,
        ending, List.nil_append] at ih
      have opens := DisplayMath.Block.isDelimiterLine_delimiter whole fun char member =>
        Text.isBlank_of_isReturn (isReturn_of_isLineEnd whole.lineEnd char member)
      have closes := DisplayMath.Block.isDelimiterLine_delimiter whole ended.blank
      have size := DisplayMath.Block.length_text block
      have next : offset + front.length + (block.delimiter ++ block.newline).length +
          block.inside.length + (block.delimiter ++ Text.firstBreak text).length =
          offset + front.length + block.text.length + (Text.firstBreak text).length := by
        simp only [size, List.length_append]
        omega
      rw [cut_append cutter atStart, DisplayMath.delimiterSpans_append,
        DisplayMath.delimiterSpans_eq_nil (loose.not_isDelimiterLine cutter), cutter.flatten,
        List.nil_append, blockEq, DisplayMath.delimiterSpans, DisplayMath.delimiterSpans_append,
        DisplayMath.delimiterSpans_eq_nil others, inside, List.nil_append,
        DisplayMath.delimiterSpans]
      simp only [opens, closes, if_true, next, ih, List.flatMap_cons, DisplayMath.Place.opening,
        DisplayMath.Place.closing, linesEq, List.headD_cons, List.cons_append, List.nil_append,
        List.cons.injEq, and_true, Span.mk.injEq]
      refine ⟨trivial, ?_⟩
      rw [← List.cons_append, List.getLastD_concat]
      omega

theorem countP_splitFeeds (layout : Layout offset text places) :
    (Text.splitFeeds text).countP DisplayMath.isDelimiterLine = places.length * 2 := by
  rw [Text.countP_splitFeeds rfl DisplayMath.isDelimiterLine_feed,
    ← DisplayMath.length_delimiterSpans offset,
    layout.delimiterSpans Text.isCutter_physicalLines, List.length_flatMap]
  simp

end Layout

namespace DisplayMath

theorem unbroken_hitSpans {document pre text post : List Char} {before : Option Char}
    (whole : document = pre ++ (text ++ post))
    (single : text.Pairwise fun char later =>
      Text.isLineBreak char = true → Text.isLineBreak later = true) :
    ∀ span ∈ Text.hitSpans pre.length (Text.scan onLine before text),
      (span.slice document).any Text.isLineBreak = false := by
  intro span member
  obtain ⟨previous, front, taken, left, value, textEq, found, rfl⟩ :=
    keeps_onLine.takes.exists_of_mem_hitSpans member
  obtain ⟨init, after, takenEq, size⟩ := onLine_eq_some found
  obtain ⟨rfl, rfl⟩ : taken = init ++ ['$'] ∧ left = after :=
    List.append_inj (by simpa using takenEq) (by simp [size])
  rw [textEq] at single
  have own := (List.pairwise_append.mp (List.pairwise_append.mp single).2.1).1
  have cut : document = (pre ++ front) ++ ((init ++ ['$']) ++ (left ++ post)) := by
    simp [whole, textEq]
  rw [cut, Span.slice_append]
  simp only [List.any_append, List.any_cons, List.any_nil, Bool.or_false, Bool.or_eq_false_iff,
    List.any_eq_false]
  refine ⟨fun other member isBreak => ?_, by decide⟩
  have dollar := (List.pairwise_append.mp own).2.2 other member '$' (by simp) isBreak
  exact absurd dollar (by decide)

theorem filter_spansFrom {document pre post : List Char} {lines others : List (List Char)}
    (whole : document = pre ++ (lines.flatten ++ post))
    (single : ∀ line ∈ lines, Text.lines line = [line])
    (plain : ∀ line ∈ lines, isDelimiterLine line = false) :
    (spansFrom pre.length (lines ++ others)).filter
        (fun span => (span.slice document).any Text.isLineBreak) =
      (spansFrom (pre.length + lines.flatten.length) others).filter
        fun span => (span.slice document).any Text.isLineBreak := by
  induction lines generalizing pre with
  | nil => rfl
  | cons line lines ih =>
      have own := plain line (by simp)
      have other : Text.block? closer? line (lines ++ others) = none := by
        simp [Text.block?, closer?, own]
      have hits := @unbroken_hitSpans document pre line (lines.flatten ++ post) none
        (by simp [whole]) (Text.pairwise_of_single (single line (by simp)))
      have later := @ih (pre ++ line) (by simp [whole])
        (fun next member => single next (by simp [member]))
        fun next member => plain next (by simp [member])
      rw [List.cons_append, spansFrom]
      split
      next found =>
        rw [other] at found
        simp at found
      next =>
        rw [List.filter_append, List.filter_eq_nil_iff.mpr fun span member => by simp [hits span member],
          List.nil_append, List.flatten_cons, List.length_append, ← Nat.add_assoc]
        rwa [List.length_append] at later

end DisplayMath

/-- The blocks of display math that are read in a layout are its places. -/
theorem Layout.blockSpans {document pre text : List Char} {offset : Nat}
    {places : List DisplayMath.Place} (layout : Layout offset text places)
    (whole : document = pre ++ text) (start : pre.length = offset) :
    (DisplayMath.spansFrom offset (Text.lines text)).filter
        (fun span => (span.slice document).any Text.isLineBreak) =
      places.map DisplayMath.Place.span := by
  induction layout generalizing pre with
  | @loose offset text loose =>
      subst start
      have skipped := @DisplayMath.filter_spansFrom document pre [] (Text.lines text) []
        (by simp [whole]) (Text.areLines_lines text).single
        (loose.not_isDelimiterLine Text.isCutter_lines)
      rw [List.append_nil] at skipped
      rw [skipped, DisplayMath.spansFrom]
      rfl
  | @block offset front text places block loose atStart isBlock ended _ ih =>
      subst start
      obtain ⟨between, above, after, blockEq, textEq, inside, others, ending, skipped⟩ :=
        DisplayMath.Block.cut_text Text.isCutter_lines isBlock ended
      have opens := DisplayMath.Block.isDelimiterLine_delimiter isBlock fun char member =>
        Text.isBlank_of_isReturn (isReturn_of_isLineEnd isBlock.lineEnd char member)
      have closes := DisplayMath.Block.isDelimiterLine_delimiter isBlock ended.blank
      have spelled : text = Text.firstBreak text ++ after.flatten := by
        rw [← ending, ← List.flatten_append, ← textEq, Text.flatten_lines]
      have before := @DisplayMath.filter_spansFrom document pre (block.text ++ text)
        (Text.lines front) (Text.lines (block.text ++ text)) (by simp [whole])
        (Text.areLines_lines front).single (loose.not_isDelimiterLine Text.isCutter_lines)
      have beyond := @DisplayMath.filter_spansFrom document (pre ++ front ++ block.text)
        after.flatten above after (by rw [ending, ← spelled, whole]; simp)
        (fun line member => (Text.areLines_lines text).single line (by simp [textEq, member])) skipped
      have later := @ih (pre ++ front ++ block.text) (by simp [whole]) (by simp [Nat.add_assoc])
      have found : Text.block? DisplayMath.closer? (block.delimiter ++ block.newline)
          (between ++ (block.delimiter ++ Text.firstBreak text) :: after) =
          some (between, block.delimiter ++ Text.firstBreak text, after) :=
        DisplayMath.block?_eq_some_iff.mpr ⟨opens, rfl, others, closes⟩
      have size : (block.delimiter ++ block.newline).length + block.inside.length +
          (block.delimiter ++ Text.firstBreak text).length =
          (block.text ++ Text.firstBreak text).length := by
        simp only [DisplayMath.Block.length_text, List.length_append]
        omega
      have slice : Span.slice ⟨(pre ++ front).length,
          (pre ++ front).length + (block.text ++ Text.firstBreak text).length⟩ document =
          block.text ++ Text.firstBreak text := by
        have cut : document = (pre ++ front) ++ ((block.text ++ Text.firstBreak text) ++ after.flatten) := by
          rw [whole, List.append_assoc (block.text), ← spelled]
          simp
        rw [cut, Span.slice_append]
      rw [cut_append Text.isCutter_lines atStart, before, Text.flatten_lines, blockEq,
        DisplayMath.spansFrom]
      split
      next read =>
        rw [found, Option.some.injEq, Prod.mk.injEq, Prod.mk.injEq] at read
        obtain ⟨rfl, rfl, rfl⟩ := read
        have stop : pre.length + front.length + (block.delimiter ++ block.newline).length +
            between.flatten.length + (block.delimiter ++ Text.firstBreak text).length =
            pre.length + front.length + block.text.length + (Text.firstBreak text).length := by
          have sum : (block.text ++ Text.firstBreak text).length =
              block.text.length + (Text.firstBreak text).length := List.length_append
          rw [inside]
          omega
        have broken : (block.text ++ Text.firstBreak text).any Text.isLineBreak = true := by
          have feed : '\n' ∈ block.newline := by
            rcases isBlock.lineEnd with newline | newline
            · simp [newline]
            · simp [newline]
          refine List.any_eq_true.mpr ⟨'\n', ?_, by decide⟩
          simp [DisplayMath.Block.text, feed]
        simp only [List.length_append, ← Nat.add_assoc] at slice beyond
        rw [textEq, beyond, ending] at later
        rw [stop, List.filter_cons_of_pos (by rw [slice]; exact broken), later]
        rfl
      next read =>
        rw [found] at read
        simp at read

theorem Review.countP_numbered (test : List Char → Bool) (first : Nat) (lines : List (List Char)) :
    ((numbered first lines).filter fun line => test line.2).length = lines.countP test := by
  induction lines generalizing first with
  | nil => rfl
  | cons line lines ih =>
      by_cases holds : test line = true
      · simp [numbered, holds, ih]
      · simp [numbered, holds, ih]

theorem Review.proseLines_eq {text : List Char} (free : '\x60' ∉ text) (filled : text ≠ []) :
    proseLines text = numbered 1 (Text.splitFeeds text) := by
  simp [proseLines, prose_eq_proseFrom, Fence.split_of_free filled free, proseFrom]

theorem Layout.checkDelimiters {text : List Char} {places : List DisplayMath.Place}
    (layout : Layout 0 text places) (free : '\x60' ∉ text) : Review.checkDelimiters text = [] := by
  by_cases filled : text = []
  · subst filled
    decide +kernel
  · have paired := layout.countP_splitFeeds
    rw [Review.checkDelimiters, Review.proseLines_eq free filled, Review.countP_numbered, paired]
    split
    next => simp
    next => rfl

theorem not_mem_convert (options : Options) {text : List Char} (free : '\x60' ∉ text) :
    '\x60' ∉ convert options text := by
  intro member
  have same : content (delimiterMarks ++ braces) (convert options text) =
      content (delimiterMarks ++ braces) text :=
    (sameContent_convert options (by decide) (fun _ => by decide) text).kept
  have inContent : '\x60' ∈ content (delimiterMarks ++ braces) (convert options text) :=
    List.mem_filter.mpr ⟨member, by decide⟩
  rw [same] at inContent
  exact free (List.mem_filter.mp inContent).1

/-- If a text has no dollars, no backticks and no carriage return without its line feed, the lines of
two dollars of the output are the first and the last line of each region of display math in turn. So
these regions are the blocks that are read in the output, each with the line break after it, and the
review finds the delimiters paired. -/
theorem delimiterLines_convert (options : Options) {text : List Char} (noDollar : '$' ∉ text)
    (noTick : '\x60' ∉ text) (paired : Text.Paired text) :
    let places := DisplayMath.places 0 (convertedRegions options text)
    DisplayMath.delimiterSpans 0 (Text.lines (convert options text)) =
        places.flatMap (fun place => [place.opening, place.closing]) ∧
      DisplayMath.blockSpans (convert options text) = places.map DisplayMath.Place.span ∧
      Review.checkDelimiters (convert options text) = [] := by
  have painted := laid_convertedRegions options noDollar
  have returns := paired_convert options paired
  have spelled : Painted.text (Piece.paint (convertedRegions options text)) =
      convert options text := Painted.text_paint _
  have regions : Piece.ofPaint (Piece.paint (convertedRegions options text)) =
      convertedRegions options text := by
    rw [← Piece.fuse_eq_ofPaint, Piece.fuse_eq_self (isFused_convertedRegions options text)]
  have layout := painted.layout (spelled ▸ returns) .nil id 0
  rw [spelled, regions, List.nil_append, List.length_nil, Nat.add_zero] at layout
  refine ⟨layout.delimiterSpans Text.isCutter_lines, ?_,
    layout.checkDelimiters (not_mem_convert options noTick)⟩
  exact layout.blockSpans (List.nil_append _).symm rfl

theorem delimiterLines_convert_block :
    '$' ∉ "\\[a\\]\r\nb".toList ∧ '\x60' ∉ "\\[a\\]\r\nb".toList ∧
      Text.Paired "\\[a\\]\r\nb".toList ∧
      DisplayMath.delimiterSpans 0 (Text.lines (convert {} "\\[a\\]\r\nb".toList)) =
        [⟨0, 4⟩, ⟨7, 11⟩] ∧
      DisplayMath.blockSpans (convert {} "\\[a\\]\r\nb".toList) = [⟨0, 11⟩] ∧
      Review.checkDelimiters (convert {} "\\[a\\]\r\nb".toList) = [] := by
  have placed : DisplayMath.places 0 (convertedRegions {} "\\[a\\]\r\nb".toList) =
      [⟨0, "$$\r\na\r\n$$".toList, "\r\n".toList⟩] := by decide +kernel
  have noDollar : '$' ∉ "\\[a\\]\r\nb".toList := by decide
  have noTick : '\x60' ∉ "\\[a\\]\r\nb".toList := by decide
  have paired : Text.Paired "\\[a\\]\r\nb".toList := ⟨by decide, by decide⟩
  have whole := delimiterLines_convert {} noDollar noTick paired
  rw [placed] at whole
  exact ⟨noDollar, noTick, paired, whole.1, whole.2.1, whole.2.2⟩

end DollarMath
