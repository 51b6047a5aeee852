import DollarMath.Proofs.Conversion.Frozen
import DollarMath.Proofs.Document.Lossless
import DollarMath.Proofs.Text.Lines

/-!
Lines that are only a link. They are frozen one by one, but only after inline code has been cut out
of the prose: such a line comes through a conversion as it is if it holds no inline code or if the
whole prose is only a link, and else its parts beside the code are revised like any others.
-/

namespace DollarMath

namespace Piece

variable {κ β : Type} [DecidableEq κ] {own : Piece κ → List β}

/-- What is made of the pieces of two texts one after the other, if it can be cut at the seam. -/
theorem flatMap_ofPaint_append {pieces : List (Piece κ)} (fused : IsFused pieces)
    (second : List (Char × κ))
    (splits : ∀ kind front back, front ≠ [] → back ≠ [] → front <:+ join pieces →
      back <+: second.map Prod.fst →
      own ⟨kind, front ++ back⟩ = own ⟨kind, front⟩ ++ own ⟨kind, back⟩) :
    (ofPaint (paint pieces ++ second)).flatMap own =
      pieces.flatMap own ++ (ofPaint second).flatMap own := by
  induction pieces with
  | nil => rfl
  | cons piece pieces ih =>
      obtain ⟨kind, text⟩ := piece
      have filled : text ≠ [] := fused.nonempty ⟨kind, text⟩ (by simp)
      have tail := ih fused.tail fun kind front back frontFilled backFilled ends starts =>
        splits kind front back frontFilled backFilled (ends.trans (List.suffix_append text _)) starts
      rw [paint_cons, List.append_assoc, ofPaint_map_append]
      cases pieces with
      | nil =>
          rw [paint_nil, List.nil_append]
          cases pieceEq : ofPaint second with
          | nil => simp [attach, filled]
          | cons next rest =>
              by_cases same : kind = next.kind
              · -- The two pieces at the seam are one.
                have starts : next.text <+: second.map Prod.fst := by
                  rw [← paint_ofPaint second, pieceEq, map_fst_paint, join_cons]
                  exact List.prefix_append _ _
                have notNil : next.text ≠ [] :=
                  (isFused_ofPaint second).nonempty next (by simp [pieceEq])
                have seam := splits kind text next.text filled notNil (by simp) starts
                subst same
                simp [attach, filled, seam]
              · simp [attach, filled, same]
      | cons next rest =>
          obtain ⟨char, chars, nextEq⟩ :=
            List.exists_cons_of_ne_nil (fused.nonempty next (by simp))
          have differ : kind ≠ next.kind := (List.isChain_cons_cons.mp fused.differ).1
          obtain ⟨first, others, headEq⟩ := exists_ofPaint_cons char next.kind
            (chars.map (·, next.kind) ++ paint rest ++ second)
          have painted : paint (next :: rest) ++ second =
              (char, next.kind) :: (chars.map (·, next.kind) ++ paint rest ++ second) := by
            simp [nextEq]
          rw [painted, headEq] at tail ⊢
          rw [List.flatMap_cons, List.append_assoc, ← tail]
          simp [attach, filled, differ]

end Piece

namespace Painted

def cutAt : List (List Char) → Painted → List Painted
  | [], _ => []
  | line :: lines, painted => painted.take line.length :: cutAt lines (painted.drop line.length)

def lines (painted : Painted) : List Painted :=
  cutAt (Text.lines painted.text) painted

theorem map_text_cutAt {all : List (List Char)} {painted : Painted}
    (spelled : painted.text = all.flatten) : (cutAt all painted).map text = all := by
  induction all generalizing painted with
  | nil => rfl
  | cons line all ih =>
      have front : text (painted.take line.length) = line := by
        rw [text, List.map_take, ← text, spelled, List.flatten_cons, List.take_left]
      have back : text (painted.drop line.length) = all.flatten := by
        rw [text, List.map_drop, ← text, spelled, List.flatten_cons, List.drop_left]
      rw [cutAt, List.map_cons, front, ih back]

theorem map_text_lines (painted : Painted) : painted.lines.map text = Text.lines painted.text :=
  map_text_cutAt (Text.flatten_lines _).symm

theorem flatten_cutAt {all : List (List Char)} {painted : Painted}
    (spelled : painted.text = all.flatten) : (cutAt all painted).flatten = painted := by
  induction all generalizing painted with
  | nil => exact (List.map_eq_nil_iff.mp spelled).symm
  | cons line all ih =>
      have back : text (painted.drop line.length) = all.flatten := by
        rw [text, List.map_drop, ← text, spelled, List.flatten_cons, List.drop_left]
      rw [cutAt, List.flatten_cons, ih back, List.take_append_drop]

theorem flatten_lines (painted : Painted) : painted.lines.flatten = painted :=
  flatten_cutAt (Text.flatten_lines _).symm

theorem eq_outside {painted : Painted} (free : ∀ stroke ∈ painted, stroke.2 = .outside) :
    painted = outside painted.text := by
  induction painted with
  | nil => rfl
  | cons stroke painted ih =>
      obtain ⟨char, kind⟩ := stroke
      have own : kind = .outside := free (char, kind) (by simp)
      rw [text_cons, outside_cons, ← ih fun other member => free other (by simp [member]), own]

theorem ofPaint_outside {text : List Char} (filled : text ≠ []) :
    Piece.ofPaint (outside text) = [Region.outside text] := by
  have whole := Piece.ofPaint_map_append RegionKind.outside text []
  rw [List.append_nil] at whole
  rw [outside, whole]
  simp [Piece.ofPaint, Piece.attach, filled, Region.outside]

theorem Carries.append_both {runs others : List Painted} {first second : Painted}
    (left : Carries runs first) (right : Carries others second) :
    Carries (runs ++ others) (first ++ second) := by
  induction runs generalizing first with
  | nil => exact right.append first
  | cons run runs ih =>
      obtain ⟨gap, rest, rfl, later⟩ := left
      exact ⟨gap, rest ++ second, by simp, ih later⟩

theorem Carries.filter {α : Type} {items : List α} {keep : α → Bool} {run own : α → Painted}
    (each : ∀ item ∈ items, keep item = true → ∃ front back, own item = front ++ (run item ++ back)) :
    Carries ((items.filter keep).map run) (items.flatMap own) := by
  induction items with
  | nil => trivial
  | cons item items ih =>
      have later := ih fun other member => each other (List.mem_cons_of_mem _ member)
      rw [List.filter_cons, List.flatMap_cons]
      split
      next kept =>
        obtain ⟨front, back, ownEq⟩ := each item (by simp) kept
        exact ⟨front, back ++ items.flatMap own, by simp [ownEq], later.append back⟩
      next => exact later.append _

theorem Carries.flatMap {α : Type} {items : List α} {runs : α → List Painted} {own : α → Painted}
    (each : ∀ item ∈ items, Carries (runs item) (own item)) :
    Carries (items.flatMap runs) (items.flatMap own) := by
  induction items with
  | nil => trivial
  | cons item items ih =>
      rw [List.flatMap_cons, List.flatMap_cons]
      exact (each item (by simp)).append_both
        (ih fun other member => each other (List.mem_cons_of_mem _ member))

end Painted

namespace Link

def freezeRegion (region : Region) : List Region :=
  if region.isOutside then (Text.lines region.text).flatMap freezeLine else [region]

theorem paint_freeze (regions : List Region) :
    Piece.paint (freeze regions) =
      regions.flatMap fun region => Piece.paint (freezeRegion region) := by
  rw [freeze, reviseOutside, Piece.paint_fuse]
  generalize (none : Option Char) = before
  induction regions generalizing before with
  | nil => rfl
  | cons region regions ih =>
      rw [reviseOutsideAfter, Piece.paint_append, List.tail_nil, ih, List.flatMap_cons,
        freezeRegion]
      congr 2
      simp only [Bool.not_false, Bool.and_true, List.headD_nil, reviseAround]
      split
      next =>
        split
        next empty => rw [List.isEmpty_iff.mp empty]; rfl
        next => rfl
      next => rfl

theorem paint_freezeRegion_append {first second : List Char} (broken : Text.Breaks first second)
    (kind : RegionKind) :
    Piece.paint (freezeRegion ⟨kind, first ++ second⟩) =
      Piece.paint (freezeRegion ⟨kind, first⟩) ++ Piece.paint (freezeRegion ⟨kind, second⟩) := by
  simp only [freezeRegion, Piece.isOutside]
  by_cases free : kind = .outside
  · simp [free, Text.lines_append broken]
  · simp [free]

/-- What freezing makes of a text in which some characters are frozen already. -/
def refrozen (painted : Painted) : Painted :=
  (Piece.ofPaint painted).flatMap fun region => Piece.paint (freezeRegion region)

theorem refrozen_append {first second : Painted} (broken : Text.Breaks first.text second.text) :
    refrozen (first ++ second) = refrozen first ++ refrozen second := by
  unfold refrozen
  conv_lhs => rw [← Piece.paint_ofPaint first]
  refine Piece.flatMap_ofPaint_append (Piece.isFused_ofPaint first) second ?_
  intro kind front back frontFilled backFilled ends starts
  refine paint_freezeRegion_append ?_ kind
  -- The seam between the lines is the seam between the two halves of the piece.
  obtain ⟨before, textEq⟩ := ends
  obtain ⟨after, restEq⟩ := starts
  rw [← Painted.text_paint, Piece.paint_ofPaint] at textEq
  have last : front.getLast? = first.text.getLast? := by
    rw [← textEq, List.getLast?_append_of_ne_nil before frontFilled]
  have head : back.head? = second.text.head? := by
    rw [Painted.text, ← restEq, List.head?_append_of_ne_nil back backFilled]
  exact ⟨last ▸ broken.ended, last ▸ head ▸ broken.uncut⟩

/-- Links are frozen line by line of the whole text, also where other regions cut a line. -/
theorem refrozen_flatten {rows : List Painted} (areLines : Text.AreLines (rows.map Painted.text)) :
    refrozen rows.flatten = rows.flatMap refrozen := by
  induction rows with
  | nil => rfl
  | cons row rows ih =>
      cases rows with
      | nil => simp
      | cons next rows =>
          obtain ⟨broken, _⟩ := List.isChain_cons_cons.mp areLines.broken
          have filled : next.text ≠ [] := areLines.ne_nil (by simp)
          have head : (Painted.text (next :: rows).flatten).head? = next.text.head? := by
            rw [List.flatten_cons, Painted.text_append, List.head?_append_of_ne_nil _ filled]
          rw [List.flatten_cons, refrozen_append ⟨broken.ended, head ▸ broken.uncut⟩,
            ih areLines.tail]
          rfl

theorem paint_freeze_of_lines {regions : List Region} (fused : Piece.IsFused regions)
    {rows : List Painted} (whole : rows.flatten = Piece.paint regions)
    (areLines : Text.AreLines (rows.map Painted.text)) :
    Piece.paint (freeze regions) = rows.flatMap refrozen := by
  rw [← refrozen_flatten areLines, whole, paint_freeze, refrozen, ← Piece.fuse_eq_ofPaint,
    Piece.fuse_eq_self fused]

theorem refrozen_outside {line : List Char} (single : Text.lines line = [line])
    (blob : isBlob (Text.strip line) = true) :
    refrozen (Painted.outside line) =
      (Text.lineBody line).map (·, .link) ++ Painted.outside (Text.lineReturn line) := by
  have filled : line ≠ [] := by
    rintro rfl
    simp [Text.lines] at single
  have pieces := Painted.ofPaint_outside filled
  rw [refrozen, pieces]
  simp [freezeRegion, Region.outside, Piece.isOutside, single, freezeLine, blob, Region.link,
    Painted.outside]

end Link

namespace Document

/-- A line that is only a link, in prose that is only a link too or with no inline code on the
line. -/
def isLinkLine (prose : List Char) (line : Painted) : Bool :=
  Link.isBlob (Text.strip line.text) &&
    (Link.isBlob (Text.strip prose) || line.all (·.2 == .outside))

def linkLines (prose : List Char) : List (List Char) :=
  ((Painted.lines (Piece.paint (InlineCode.split [Region.outside prose]))).filter
    (isLinkLine prose)).map Painted.text

def segmentLinkLines (segment : Segment) : List (List Char) :=
  match segment.kind with
  | .code => []
  | .prose => linkLines segment.text

example : linkLines "[a](b)\n[\x60c\x60](d)\nhttp://e\nf http://g".toList =
    ["[a](b)\n".toList, "http://e\n".toList] := by
  decide +kernel

theorem isBlob_of_mem_linkLines {prose line : List Char} (member : line ∈ linkLines prose) :
    Link.isBlob (Text.strip line) = true := by
  simp only [linkLines, isLinkLine, List.mem_map, List.mem_filter, Bool.and_eq_true] at member
  obtain ⟨painted, ⟨_, blob, _⟩, rfl⟩ := member
  exact blob

def linkRun (line : List Char) : Painted :=
  (Text.lineBody line).map (·, .link)

@[simp] theorem text_linkRun (line : List Char) : (linkRun line).text = Text.lineBody line :=
  Painted.text_map _ _

theorem isFrozen_linkRun {line : List Char} (blob : Link.isBlob (Text.strip line) = true) :
    (linkRun line).IsFrozen := by
  constructor
  · intro isNil
    rw [← Text.strip_lineBody, List.map_eq_nil_iff.mp isNil] at blob
    exact absurd blob (by decide)
  · intro stroke member
    obtain ⟨char, _, rfl⟩ := List.mem_map.mp member
    simp

theorem carries_freeze {prose : List Char} (mixed : Link.isBlob (Text.strip prose) = false) :
    Painted.Carries ((linkLines prose).map linkRun)
      (Piece.paint (Link.freeze (InlineCode.split [Region.outside prose]))) := by
  have fused : Piece.IsFused (InlineCode.split [Region.outside prose]) := Piece.isFused_fuse _
  generalize cutEq : InlineCode.split [Region.outside prose] = regions at fused ⊢
  have areLines : Text.AreLines ((Painted.lines (Piece.paint regions)).map Painted.text) := by
    rw [Painted.map_text_lines]
    exact Text.areLines_lines _
  have lineByLine := Link.paint_freeze_of_lines fused (Painted.flatten_lines _) areLines
  rw [lineByLine, linkLines, List.map_map, cutEq]
  refine Painted.Carries.filter fun line member isLink => ?_
  simp only [isLinkLine, mixed, Bool.false_or, Bool.and_eq_true, List.all_eq_true,
    beq_iff_eq] at isLink
  have single := areLines.single line.text (List.mem_map_of_mem member)
  refine ⟨[], Painted.outside (Text.lineReturn line.text), ?_⟩
  rw [Painted.eq_outside isLink.2, Link.refrozen_outside single isLink.1]
  simp [linkRun]

theorem carries_link (prose : List Char) :
    Painted.Carries ((linkLines prose).map linkRun) (Piece.paint [Region.link prose]) := by
  have spelled : Painted.text (Piece.paint (InlineCode.split [Region.outside prose])) = prose := by
    have kept := (keepsFrozen_run .code [Region.outside prose]).text_eq
    rw [Painted.paint_outside, Painted.text_outside] at kept
    exact kept
  generalize cutEq : Piece.paint (InlineCode.split [Region.outside prose]) = painted at spelled
  have lineByLine : Piece.paint [Region.link prose] =
      (Painted.lines painted).flatMap fun line => line.text.map (·, .link) := by
    have whole := congrArg Painted.text (Painted.flatten_lines painted)
    rw [spelled] at whole
    rw [← whole]
    simp [Region.link, Painted.text, List.flatMap, List.map_flatten, Function.comp_def]
  rw [lineByLine, linkLines, List.map_map, cutEq]
  refine Painted.Carries.filter fun (line : Painted) _ _ =>
    ⟨[], (Text.lineReturn line.text).map (·, .link), ?_⟩
  conv_lhs => rw [← Text.lineBody_append_lineReturn line.text]
  simp [linkRun]

theorem carries_proseRegions (prose : List Char) :
    Painted.Carries ((linkLines prose).map linkRun) (Piece.paint (proseRegions prose)) := by
  cases blob : Link.isBlob (Text.strip prose) with
  | true =>
      rw [proseRegions, if_pos blob]
      exact carries_link prose
  | false =>
      have frozen : ∀ run ∈ (linkLines prose).map linkRun, run.IsFrozen := by
        intro run member
        obtain ⟨line, inLines, rfl⟩ := List.mem_map.mp member
        exact isFrozen_linkRun (isBlob_of_mem_linkLines inLines)
      have start := carries_freeze blob
      have marked := marked_freeze blob
      generalize Piece.paint (proseRegions prose) = painted at marked ⊢
      induction marked with
      | refl => exact start
      | tail _ pass ih => exact pass.carries frozen ih

theorem carries_segmentRegions (segment : Segment) :
    Painted.Carries ((segmentLinkLines segment).map linkRun)
      (Piece.paint (segmentRegions segment)) := by
  obtain ⟨kind, text⟩ := segment
  cases kind with
  | code => trivial
  | prose => exact carries_proseRegions text

def allLinkLines (text : List Char) : List (List Char) :=
  (Fence.split text).flatMap segmentLinkLines

theorem isBlob_of_mem_allLinkLines {text line : List Char} (member : line ∈ allLinkLines text) :
    Link.isBlob (Text.strip line) = true := by
  obtain ⟨segment, _, inSegment⟩ := List.mem_flatMap.mp member
  unfold segmentLinkLines at inSegment
  split at inSegment
  next => simp at inSegment
  next => exact isBlob_of_mem_linkLines inSegment

theorem carries_regions (text : List Char) :
    Painted.Carries ((allLinkLines text).map linkRun) (Piece.paint (regions text)) := by
  rw [regions, Piece.paint_fuse, Piece.paint, List.flatMap_assoc, allLinkLines, List.map_flatMap]
  exact Painted.Carries.flatMap fun segment _ => carries_segmentRegions segment

end Document

/-- Lines that are only a link come through a conversion as they are and in order, if no inline code
lies on them or the whole prose is only a link. -/
theorem weaves_linkLines (options : Options) (text : List Char) :
    Weaves ((Document.allLinkLines text).map Text.lineBody) (convert options text) := by
  have frozen : ∀ run ∈ (Document.allLinkLines text).map Document.linkRun, run.IsFrozen := by
    intro run member
    obtain ⟨line, inLines, rfl⟩ := List.mem_map.mp member
    exact Document.isFrozen_linkRun (Document.isBlob_of_mem_allLinkLines inLines)
  have carried : Painted.Carries ((Document.allLinkLines text).map Document.linkRun)
      (Piece.paint (convertedRegions options text)) :=
    preserved_convertedRegions
      (motive := Painted.Carries ((Document.allLinkLines text).map Document.linkRun))
      (fun _ _ _ _ revised => revised.carries frozen) (Document.carries_regions text)
  have woven := carried.weaves
  rw [List.map_map, Painted.text_paint, ← convert] at woven
  simpa [Function.comp_def] using woven

/-- The second line is only a link, but inline code on it hides that. -/
theorem linkLine_convert_ne :
    Fence.split "a\n[\\(x\\) \x60b\x60](u)".toList =
        [⟨.prose, "a\n[\\(x\\) \x60b\x60](u)".toList⟩] ∧
      Text.lines "a\n[\\(x\\) \x60b\x60](u)".toList =
        ["a\n".toList, "[\\(x\\) \x60b\x60](u)".toList] ∧
      Link.isBlob (Text.strip "[\\(x\\) \x60b\x60](u)".toList) = true ∧
      (∀ region ∈ Document.regions "a\n[\\(x\\) \x60b\x60](u)".toList, region.kind ≠ .display) ∧
      ¬ "[\\(x\\) \x60b\x60](u)".toList <:+: convert {} "a\n[\\(x\\) \x60b\x60](u)".toList := by
  decide +kernel

end DollarMath
