import DollarMath.Proofs.Document.Chunks
import DollarMath.Proofs.Document.DisplayFree
import DollarMath.Proofs.Region.Feeds

/-!
Where a block of fenced code meets prose: the prose before it ends a line and does not end with code
of its own, and the prose after it starts with a line feed that is neither code nor display math.
-/

namespace DollarMath

namespace Fence

/-- A block of code among the segments of a text stands between prose, which ends a line before it
and ends its last line after it. -/
structure Stands (front : List Segment) (block : List Char) (back : List Segment) : Prop where
  fenced : IsFenced block
  above : front = [] ∨ ∃ init prose, front = init ++ [⟨.prose, prose⟩] ∧ prose ≠ [] ∧
    AtLine prose.getLast?
  below : back = [] ∨ ∃ char prose rest, back = ⟨.prose, char :: prose⟩ :: rest ∧
    Text.isReturn char = true

theorem stands_of_framed {before : Option Char} {prose block : List Char} {parts : Parts}
    {front back : List Segment} (framed : Framed (Text.lastOr before prose) parts)
    (split : (assemble prose parts).filter (!·.text.isEmpty) = front ++ ⟨.code, block⟩ :: back) :
    Stands front block back := by
  -- A segment of code is none of the prose that the others start with.
  have notProse {segment : Segment} {text : List Char} {rest : List Segment}
      (inProse : [(⟨.prose, text⟩ : Segment)].filter (!·.text.isEmpty) = rest)
      (member : segment ∈ rest) : segment.kind ≠ .code := by
    rw [← inProse] at member
    rw [List.mem_singleton.mp (List.mem_filter.mp member).1]
    simp
  induction parts generalizing before prose front with
  | nil => exact absurd rfl (notProse split (List.mem_append_right _ List.mem_cons_self))
  | cons part parts ih =>
      obtain ⟨own, next⟩ := part
      have filled : next = [] → parts = [] := by
        rintro rfl
        cases parts with
        | nil => rfl
        | cons other parts => exact absurd rfl framed.filled
      obtain ⟨atLine, isBlock, returns, later⟩ := framed
      have whole : (assemble prose ((own, next) :: parts)).filter (!·.text.isEmpty) =
          [(⟨.prose, prose⟩ : Segment)].filter (!·.text.isEmpty) ++
            ⟨.code, own⟩ :: (assemble next parts).filter (!·.text.isEmpty) := by
        have kept : (!own.isEmpty) = true := by simpa using isBlock.ne_nil
        rw [← List.filter_cons_of_pos (p := fun segment : Segment => !segment.text.isEmpty) kept,
          ← List.filter_append]
        rfl
      rw [whole] at split
      rcases append_eq_append_cons split with ⟨rest, inProse, _⟩ | ⟨rest, rfl, tailEq⟩
      · exact absurd rfl (notProse inProse (List.mem_append_right _ List.mem_cons_self))
      have above : prose = [] ∨ prose ≠ [] ∧ AtLine prose.getLast? := by
        by_cases empty : prose = []
        · exact .inl empty
        · exact .inr ⟨empty, Text.lastOr_of_ne_nil empty before ▸ atLine⟩
      cases rest with
      | nil =>
          simp only [List.nil_append, List.cons.injEq, Piece.mk.injEq, true_and] at tailEq
          obtain ⟨rfl, rfl⟩ := tailEq
          refine ⟨isBlock.isFenced, ?_, ?_⟩
          · rcases above with rfl | ⟨filled, ends⟩
            · exact .inl rfl
            · exact .inr ⟨[], prose, by simp [filled], filled, ends⟩
          · cases next with
            | nil => exact .inl (by rw [filled rfl]; rfl)
            | cons char next => exact .inr ⟨char, next, _, rfl, returns char rfl⟩
      | cons code rest =>
          simp only [List.cons_append, List.cons.injEq] at tailEq
          obtain ⟨rfl, tailEq⟩ := tailEq
          obtain ⟨fenced, ends, starts⟩ := ih later tailEq
          refine ⟨fenced, .inr ?_, starts⟩
          rcases ends with rfl | ⟨init, last, rfl, notNil, ends⟩
          · -- Prose stands between two blocks.
            cases next with
            | nil =>
                rw [filled rfl] at tailEq
                simp [assemble] at tailEq
            | cons char next => simp [assemble] at tailEq
          · exact ⟨[⟨.prose, prose⟩].filter (!·.text.isEmpty) ++ ⟨.code, own⟩ :: init, last, by simp,
              notNil, ends⟩

theorem stands_of_split {text block : List Char} {front back : List Segment}
    (split : Fence.split text = front ++ ⟨.code, block⟩ :: back) : Stands front block back := by
  obtain ⟨prose, parts, splitEq, framed⟩ := exists_assemble text
  rw [splitEq, fuse_assemble framed] at split
  exact stands_of_framed framed split

end Fence

namespace Document

theorem lastKind_marks {before after : Option Char} {kind kind' : Option RegionKind}
    {old new : Painted} (marked : Revised Marks after before old new)
    (plain : ∀ char, new.text.getLast? = some char → char ≠ '\x60')
    (start : kind' = some .code → kind = some .code) (ends : old.lastKind kind ≠ some .code) :
    new.lastKind kind' ≠ some .code := by
  induction marked generalizing kind kind' with
  | nil => exact fun same => ends (start same)
  | @keep before char own old new _ ih =>
      refine @ih (some own) (some own) (fun last lastEq => plain last ?_) id ends
      simp [List.getLast?_cons, lastEq]
  | @replace before text regions old new filled replaced later ih =>
      cases replaced with
      | @mark own _ _ _ frozen tick =>
          rw [Piece.paint_cons, Piece.paint_nil, List.append_nil] at plain ⊢
          rw [Painted.lastKind_append, Painted.lastKind_map filled]
          by_cases last : new = []
          · rw [last]
            intro same
            obtain rfl : own = .code := Option.some.inj same
            rw [last, List.append_nil, Painted.text_map] at plain
            exact plain '\x60' tick rfl
          · rw [Painted.lastKind_of_ne_nil last (some .outside)]
            refine ih (fun char lastEq => plain char ?_) id ?_
            · rw [Painted.text_append, List.getLast?_append, lastEq]
              rfl
            · rw [Painted.lastKind_append, Painted.outside, Painted.lastKind_map filled] at ends
              exact ends

theorem lastKind_of_marked {old new : Painted} (marked : Relation.ReflTransGen MarkedTo old new)
    (plain : ∀ char, old.text.getLast? = some char → char ≠ '\x60') (before : Option RegionKind)
    (ends : old.lastKind before ≠ some .code) : new.lastKind before ≠ some .code := by
  induction marked with
  | refl => exact ends
  | tail marked pass ih =>
      refine lastKind_marks pass ?_ id ih
      rwa [text_eq_of_marks pass, text_eq_of_marked marked]

theorem lastKind_proseRegions {text : List Char} (filled : text ≠ [])
    (ends : Fence.AtLine text.getLast?) (before : Option RegionKind) :
    Painted.lastKind before (Piece.paint (proseRegions text)) ≠ some .code := by
  cases blob : Link.isBlob (Text.strip text) with
  | true =>
      simp only [proseRegions, blob, if_true, Region.link, Piece.paint_cons, Piece.paint_nil,
        List.append_nil]
      simp [Painted.lastKind_map filled]
  | false =>
      refine lastKind_of_marked (marked_proseRegions filled blob) ?_ before ?_
      · rw [Painted.text_outside]
        rintro char last rfl
        exact absurd (ends _ last) (by decide)
      · simp [Painted.outside, Painted.lastKind_map filled]

end Document

def StartsWithFeed (regions : List Region) : Prop :=
  ∃ text others, regions = Region.outside ('\n' :: text) :: others

theorem startsWithFeed_fuse {text : List Char} {others : List Region} :
    StartsWithFeed (Piece.fuse (Region.outside ('\n' :: text) :: others)) := by
  rw [Piece.fuse_eq_ofPaint, Piece.paint_cons]
  exact Piece.exists_ofPaint_cons _ _ _

theorem StartsWithFeed.reviseOutside {revise : Revision} (passes : revise.PassesFeed)
    {regions : List Region} (starts : StartsWithFeed regions) :
    StartsWithFeed (DollarMath.reviseOutside revise regions) := by
  obtain ⟨text, others, rfl⟩ := starts
  unfold DollarMath.reviseOutside
  have revised : reviseOutsideAfter revise (fun _ => false) none
      (Region.outside ('\n' :: text) :: others) [] =
        reviseAround revise (firstOf others) none 0 ('\n' :: text) [] ++
          reviseOutsideAfter revise (fun _ => false)
            (Region.outside ('\n' :: text)).text.getLast? others [] := rfl
  rw [revised, reviseAround_free passes, List.cons_append]
  exact startsWithFeed_fuse

theorem Text.lines_feed (text : List Char) : lines ('\n' :: text) = ['\n'] :: lines text := by
  rw [lines_cons (by simp)]
  rfl

namespace DisplayMath

theorem le_start_of_mem_spansFrom {offset : Nat} {lines : List (List Char)} {span : Span}
    (member : span ∈ spansFrom offset lines) : offset ≤ span.start := by
  fun_induction spansFrom offset lines with
  | case1 => simp at member
  | case2 offset line rest inside last after found stop ih =>
      rcases List.mem_cons.mp member with rfl | later
      · exact Nat.le_refl _
      · have bound := ih later
        omega
  | case3 offset line rest found ih =>
      rcases List.mem_append.mp member with hit | later
      · exact Text.le_start_of_mem_hitSpans hit
      · exact Nat.le_trans (Nat.le_add_right _ _) (ih later)

theorem startsWithFeed_split {regions : List Region} (starts : StartsWithFeed regions) :
    StartsWithFeed (split regions) := by
  obtain ⟨text, others, rfl⟩ := starts
  have maskedEq : masked (Region.outside ('\n' :: text) :: others) =
      '\n' :: (text ++ masked others) := rfl
  have after : ∀ span ∈ spans (masked (Region.outside ('\n' :: text) :: others)),
      1 ≤ span.start := by
    rw [maskedEq, spans, Text.lines_feed, spansFrom]
    intro span member
    have opens : Text.block? closer? ['\n'] (Text.lines (text ++ masked others)) = none := rfl
    split at member
    next found => rw [opens] at found; simp at found
    next =>
      rw [hitSpans_eq_nil (by decide), List.nil_append] at member
      exact le_start_of_mem_spansFrom member
  unfold split
  dsimp only
  split
  · exact ⟨text, others, rfl⟩
  · have free : (spans (masked (Region.outside ('\n' :: text) :: others))).any (·.contains 0) =
        false := by
      simp only [List.any_eq_false, Span.contains]
      intro span member
      have bound := after span member
      simp
      omega
    generalize spans _ = found at free ⊢
    have marked : markFrom found 0 (Region.outside ('\n' :: text) :: others) =
        Region.outside ['\n'] :: (markText found 1 text ++
          markFrom found (0 + (text.length + 1)) others) := by
      rw [markFrom]
      simp only [Region.outside, Piece.isOutside, markText, free]
      rfl
    rw [marked]
    exact startsWithFeed_fuse

end DisplayMath

theorem Link.passesFeed_freezeLines :
    Revision.PassesFeed fun _ text _ => (Text.lines text).flatMap freezeLine := by
  intro before text after
  have first : freezeLine ['\n'] = [Region.outside ['\n']] := by decide +kernel
  dsimp only
  rw [Text.lines_feed, List.flatMap_cons, first]
  cases text with
  | nil => rfl
  | cons char text => rfl

theorem InlineCode.passesFeed_span : Revision.PassesFeed (marking span .code) := by
  refine passesFeed_substitution (fun rest => rfl) fun text => ?_
  cases text with
  | nil => rfl
  | cons char text =>
      by_cases tick : char = '\x60'
      · rw [tick]
        rfl
      · simp [span, tick]

theorem InlineMath.passesFeed_span : Revision.PassesFeed (marking span .inline) := by
  refine passesFeed_substitution (fun rest => rfl) fun text => ?_
  cases text with
  | nil => rfl
  | cons char text =>
      by_cases dollar : char = '$'
      · rw [dollar]
        rfl
      · simp [span, dollar]

namespace Document

theorem head_proseRegions (text : List Char) :
    ∃ kind rest, Piece.paint (proseRegions ('\n' :: text)) = ('\n', kind) :: rest ∧
      kind ≠ .code ∧ kind ≠ .display := by
  unfold proseRegions
  split
  next => exact ⟨.link, _, rfl, by decide, by decide⟩
  next =>
    have whole : StartsWithFeed [Region.outside ('\n' :: text)] := ⟨text, [], rfl⟩
    have codes := whole.reviseOutside InlineCode.passesFeed_span
    have links := codes.reviseOutside Link.passesFeed_freezeLines
    have displays := DisplayMath.startsWithFeed_split links
    obtain ⟨first, others, regionsEq⟩ := displays.reviseOutside InlineMath.passesFeed_span
    unfold InlineMath.split Link.freeze InlineCode.split
    rw [regionsEq]
    exact ⟨.outside, _, rfl, by decide, by decide⟩

end Document

end DollarMath
