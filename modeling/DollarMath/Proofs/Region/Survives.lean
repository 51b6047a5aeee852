import DollarMath.Proofs.Region.Fragments
import DollarMath.Proofs.Region.WithReturns

/-!
When a stretch of text comes through a pass over the regions: if no text is replaced that starts
inside of the stretch or ends there, it stays outside or is frozen in one piece.
-/

namespace DollarMath

namespace Painted

/-- The stretch stands in the text in one piece, either outside or frozen. -/
inductive Holds (stretch : List Char) (painted : Painted) : Prop
  | outside : Painted.outside stretch <:+: painted → Holds stretch painted
  | frozen {own : Painted} : own <:+: painted → own.text = stretch →
      (∀ stroke ∈ own, stroke.2 ≠ .outside) → Holds stretch painted

variable {stretch : List Char} {part whole : Painted}

theorem Holds.mono (inWhole : part <:+: whole) (held : Holds stretch part) :
    Holds stretch whole := by
  cases held with
  | outside found => exact .outside (found.trans inWhole)
  | frozen found spelled kept => exact .frozen (found.trans inWhole) spelled kept

theorem Holds.isInfix (held : Holds stretch whole) : stretch <:+: whole.text := by
  cases held with
  | outside found =>
      have inText : text (Painted.outside stretch) <:+: whole.text := found.map Prod.fst
      rwa [text_outside] at inText
  | frozen found spelled _ => exact spelled ▸ found.map Prod.fst

theorem holds_region {region : Region} {regions : List Region} (member : region ∈ regions)
    (found : stretch <:+: region.text) : Holds stretch (Piece.paint regions) := by
  have inPaint : stretch.map (·, region.kind) <:+: Piece.paint regions := by
    obtain ⟨front, back, rfl⟩ := List.append_of_mem member
    obtain ⟨left, right, whole⟩ := found
    refine ⟨Piece.paint front ++ left.map (·, region.kind),
      right.map (·, region.kind) ++ Piece.paint back, ?_⟩
    rw [Piece.paint_append, Piece.paint_cons, ← whole]
    simp
  by_cases free : region.kind = .outside
  · exact .outside (by rwa [free] at inPaint)
  · refine .frozen inPaint (text_map _ _) fun stroke inStretch => ?_
    obtain ⟨char, _, rfl⟩ := List.mem_map.mp inStretch
    exact free

end Painted

/-- No text is replaced that starts inside of the stretch or ends inside of it, and what replaces a
text around the stretch holds it. -/
structure Spares (replaces : Replacement) (stretch : List Char) : Prop where
  start {front back text rest : List Char} {regions : List Region} {after : Option Char} :
    stretch = front ++ back → front ≠ [] → back ≠ [] → text ≠ [] → text <+: back ++ rest →
      ¬ replaces front.getLast? text regions after
  finish {front back lead : List Char} {before : Option Char} {regions : List Region} :
    stretch = front ++ back → front ≠ [] → back ≠ [] →
      ¬ replaces before (lead ++ front) regions back.head?
  inside {lead trail : List Char} {before after : Option Char} {regions : List Region} :
    replaces before (lead ++ stretch ++ trail) regions after →
      Painted.Holds stretch (Piece.paint regions)

theorem Spares.of_imp {replaces stronger : Replacement} {stretch : List Char}
    (imp : ∀ {before text regions after}, replaces before text regions after →
      stronger before text regions after)
    (spares : Spares stronger stretch) : Spares replaces stretch where
  start split frontFilled backFilled filled starts replaced :=
    spares.start split frontFilled backFilled filled starts (imp replaced)
  finish split frontFilled backFilled replaced := spares.finish split frontFilled backFilled (imp replaced)
  inside replaced := spares.inside (imp replaced)

namespace Revised

variable {replaces : Replacement} {stretch : List Char} {before after : Option Char}
  {old new : Painted}

theorem keeps_rest (spares : Spares replaces stretch) {front back : List Char} {rest : Painted}
    (split : stretch = front ++ back) (notNil : front ≠ [])
    (revised : Revised replaces after front.getLast? (Painted.outside back ++ rest) new) :
    ∃ rest', new = Painted.outside back ++ rest' := by
  induction back generalizing front new with
  | nil => exact ⟨new, rfl⟩
  | cons char back ih =>
      generalize oldEq : Painted.outside (char :: back) ++ rest = old at revised
      cases revised with
      | nil => simp at oldEq
      | keep later =>
          simp only [Painted.outside_cons, List.cons_append, List.cons.injEq,
            Prod.mk.injEq] at oldEq
          obtain ⟨⟨rfl, rfl⟩, rfl⟩ := oldEq
          have goesOn : stretch = (front ++ [char]) ++ back := by simp [split]
          obtain ⟨rest', rfl⟩ := ih goesOn (by simp) (by simpa using later)
          exact ⟨rest', rfl⟩
      | @replace _ text _ old _ filled replaced _ =>
          have starts : text <+: char :: back ++ rest.text := by
            have texts := congrArg Painted.text oldEq
            simp only [Painted.text_append, Painted.text_outside] at texts
            exact ⟨old.text, texts.symm⟩
          exact absurd replaced (spares.start split notNil (by simp) filled starts)

theorem holds_outside (spares : Spares replaces stretch) (filled : stretch ≠ [])
    (revised : Revised replaces after before old new) {front rest : Painted}
    (oldEq : old = front ++ (Painted.outside stretch ++ rest)) : Painted.Holds stretch new := by
  induction revised generalizing front with
  | nil =>
      have isNil := (List.append_eq_nil_iff.mp (List.append_eq_nil_iff.mp oldEq.symm).2).1
      exact absurd (List.map_eq_nil_iff.mp isNil) filled
  | @keep _ char kind old new later ih =>
      cases front with
      | cons stroke front =>
          simp only [List.cons_append, List.cons.injEq] at oldEq
          exact (ih oldEq.2).mono (List.suffix_cons _ _).isInfix
      | nil =>
          obtain ⟨first, others, rfl⟩ := List.exists_cons_of_ne_nil filled
          simp only [List.nil_append, Painted.outside_cons, List.cons_append, List.cons.injEq,
            Prod.mk.injEq] at oldEq
          obtain ⟨⟨rfl, rfl⟩, rfl⟩ := oldEq
          have split : char :: others = [char] ++ others := rfl
          obtain ⟨rest', rfl⟩ := keeps_rest spares split (by simp) later
          exact .outside ⟨[], rest', by simp⟩
  | @replace before text regions old new _ replaced later ih =>
      rcases append_eq_around oldEq with ⟨gap, _, whole⟩ | ⟨trail, own, _⟩ |
        ⟨left, right, split, leftFilled, rightFilled, own, whole⟩
      · exact (ih whole).mono (List.suffix_append _ _).isInfix
      · -- The replaced text goes over the whole stretch.
        have texts := congrArg Painted.text own
        simp only [Painted.text_append, Painted.text_outside] at texts
        rw [texts, ← List.append_assoc] at replaced
        exact (spares.inside replaced).mono (List.prefix_append _ _).isInfix
      · -- It would end inside of the stretch.
        have texts := congrArg Painted.text own
        have splits := congrArg Painted.text split
        simp only [Painted.text_append, Painted.text_outside] at texts splits
        have next : Text.headOr old.text after = (Painted.text right).head? := by
          rw [whole, Painted.text_append, Text.headOr_append,
            Text.headOr_of_ne_nil (by simpa [Painted.text] using rightFilled)]
        rw [texts, next] at replaced
        exact absurd replaced (spares.finish splits (by simpa [Painted.text] using leftFilled)
          (by simpa [Painted.text] using rightFilled))

theorem keeps_frozen {own : Painted} (filled : own ≠ [])
    (kept : ∀ stroke ∈ own, stroke.2 ≠ .outside) (revised : Revised replaces after before old new)
    (found : own <:+: old) : own <:+: new := by
  obtain ⟨front, rest, rfl⟩ := found
  rw [List.append_assoc] at revised
  obtain ⟨front', rest', rfl, _⟩ := revised.split_frozen filled kept
  exact ⟨front', rest', by simp⟩

theorem holds (spares : Spares replaces stretch) (filled : stretch ≠ [])
    (revised : Revised replaces after before old new) (held : Painted.Holds stretch old) :
    Painted.Holds stretch new := by
  cases held with
  | outside found =>
      obtain ⟨front, rest, whole⟩ := found
      exact revised.holds_outside spares filled (by rw [← whole, List.append_assoc])
  | @frozen own found spelled kept =>
      have notNil : own ≠ [] := by
        rintro rfl
        exact filled spelled.symm
      exact .frozen (revised.keeps_frozen notNil kept found) spelled kept

end Revised

structure Text.Recognizer.Spares {α : Type} (recognize : Recognizer α) (stretch : List Char) :
    Prop where
  takes : recognize.Takes
  start (before : Option Char) {front back : List Char} (rest : List Char) :
    stretch = front ++ back → back ≠ [] → recognize (lastOr before front) (back ++ rest) = none
  finish {before : Option Char} {lead front back rest : List Char} {value : α} :
    stretch = front ++ back → front ≠ [] → back ≠ [] →
      recognize before (lead ++ front ++ (back ++ rest)) ≠ some ((lead ++ front).length, value)

namespace Text

variable {α : Type} {recognize : Recognizer α} {stretch : List Char}

theorem Recognizer.Spares.scan_stretch (spares : recognize.Spares stretch) (before : Option Char)
    (rest : List Char) {front back : List Char} (split : stretch = front ++ back) :
    scan recognize (lastOr before front) (back ++ rest) =
      back.map .gap ++ scan recognize (lastOr before stretch) rest := by
  have missed (lead : List Char) (char : Char) (others : List Char)
      (parts : back = lead ++ char :: others) :
      recognize (lastOr (lastOr before front) lead) (char :: (others ++ rest)) = none := by
    rw [← lastOr_append]
    exact spares.start before rest (by rw [split, parts, List.append_assoc]) (by simp)
  rw [scan_append_of_missed missed, ← lastOr_append, ← split]

/-- A search has passed over the stretch in vain, or one find, which starts before the stretch, goes
over it. -/
inductive Passed (recognize : Recognizer α) (stretch : List Char) (place offset : Nat)
    (parts : List (Found α)) : Prop
  | vain : stretch.map .gap <:+: parts → Passed recognize stretch place offset parts
  | find {previous lead trail value left span} : lead ≠ [] →
      recognize previous (lead ++ (stretch ++ trail) ++ left) =
        some ((lead ++ (stretch ++ trail)).length, value) →
      .hit previous (lead ++ (stretch ++ trail)) value left.head? ∈ parts →
      span ∈ hitSpans offset parts → span.start + lead.length = place →
      Passed recognize stretch place offset parts

theorem Passed.gap {place offset : Nat} {parts : List (Found α)} (char : Char)
    (passed : Passed recognize stretch place (offset + 1) parts) :
    Passed recognize stretch place offset (.gap char :: parts) := by
  cases passed with
  | vain found => exact .vain (List.infix_cons found)
  | find filled taken member inSpans start =>
      exact .find filled taken (List.mem_cons_of_mem _ member) inSpans start

theorem Passed.hit {place offset : Nat} {parts : List (Found α)} (before : Option Char)
    (taken : List Char) (value : α) (after : Option Char)
    (passed : Passed recognize stretch place (offset + taken.length) parts) :
    Passed recognize stretch place offset (.hit before taken value after :: parts) := by
  cases passed with
  | vain found => exact .vain (List.infix_cons found)
  | find filled found member inSpans start =>
      exact .find filled found (List.mem_cons_of_mem _ member) (List.mem_cons_of_mem _ inSpans)
        start

theorem Recognizer.Spares.passed (spares : recognize.Spares stretch) (filled : stretch ≠ [])
    (before : Option Char) (offset : Nat) (front rest : List Char) :
    Passed recognize stretch (offset + front.length) offset
      (scan recognize before (front ++ (stretch ++ rest))) := by
  generalize textEq : front ++ (stretch ++ rest) = text
  revert offset front textEq
  refine spares.takes.search (motive := fun before text => ∀ offset front,
    front ++ (stretch ++ rest) = text →
      Passed recognize stretch (offset + front.length) offset (Text.scan recognize before text))
    ?_ ?_ ?_ before text
  · intro before offset front whole
    simp [filled] at whole
  · intro before char others missed ih offset front whole
    rw [scan_of_none missed]
    cases front with
    | nil =>
        have inVain := spares.scan_stretch before rest (List.nil_append stretch).symm
        rw [lastOr_nil, ← List.nil_append (stretch ++ rest), whole, scan_of_none missed] at inVain
        exact .vain (inVain ▸ (List.prefix_append _ _).isInfix)
    | cons first front =>
        simp only [List.cons_append, List.cons.injEq] at whole
        have later := ih (offset + 1) front whole.2
        rw [Nat.add_assoc, Nat.add_comm 1] at later
        exact later.gap char
  · intro before taken others value notNil found ih offset front whole
    rw [scan_of_some notNil found]
    rcases append_eq_around whole.symm with ⟨gap, rfl, later⟩ | ⟨trail, rfl, rfl⟩ |
      ⟨inside, outer, split, insideFilled, outerFilled, rfl, rfl⟩
    · have later := ih (offset + taken.length) gap later.symm
      rw [Nat.add_assoc, ← List.length_append] at later
      exact later.hit before taken value others.head?
    · have frontFilled : front ≠ [] := by
        rintro rfl
        have missed := spares.start before (trail ++ others) (List.nil_append stretch).symm filled
        rw [lastOr_nil] at missed
        rw [List.nil_append, List.append_assoc, missed] at found
        simp at found
      have inSpans : ⟨offset, offset + (front ++ (stretch ++ trail)).length⟩ ∈ hitSpans offset
          (.hit before (front ++ (stretch ++ trail)) value others.head? ::
            Text.scan recognize (front ++ (stretch ++ trail)).getLast? others) :=
        List.mem_cons_self
      exact .find frontFilled found (by simp) inSpans rfl
    · exact absurd found (spares.finish split insideFilled outerFilled)

end Text

section Substitution

variable {α : Type} {recognize : Text.Recognizer α} {build : Build α} {stretch : List Char}

theorem holds_substitution (spares : recognize.Spares stretch) (filled : stretch ≠ [])
    (before : Option Char) (front rest : List Char) (after : Option Char)
    (inside : ∀ previous lead trail value left span regions, lead ≠ [] →
      recognize previous (lead ++ (stretch ++ trail) ++ left) =
        some ((lead ++ (stretch ++ trail)).length, value) →
      span ∈ Text.hitSpans 0 (Text.scan recognize none (front ++ (stretch ++ rest))) →
      span.start + lead.length = front.length →
      build (previous.or before) (lead ++ (stretch ++ trail)) value (left.head?.or after) =
        some regions → Painted.Holds stretch (Piece.paint regions)) :
    Painted.Holds stretch
      (Piece.paint (substitution recognize build before (front ++ (stretch ++ rest)) after)) := by
  rw [substitution_eq]
  have passed := spares.passed filled none 0 front rest
  generalize partsEq : Text.scan recognize none (front ++ (stretch ++ rest)) = parts at passed
  cases passed with
  | vain found =>
      obtain ⟨left, right, rfl⟩ := found
      rw [List.flatMap_append, List.flatMap_append, Piece.paint_append, Piece.paint_append,
        paint_flatMap_gaps]
      exact .outside ⟨_, _, rfl⟩
  | @find previous lead trail value left span some found member inSpans start =>
      rw [Nat.zero_add] at start
      have own : Painted.Holds stretch (Piece.paint (build.place before after
          (.hit previous (lead ++ (stretch ++ trail)) value left.head?))) := by
        rw [Build.place]
        cases built : build (previous.or before) (lead ++ (stretch ++ trail)) value
            (left.head?.or after) with
        | none =>
            exact Painted.holds_region (List.mem_singleton.mpr rfl)
              ⟨lead, trail, by simp [Region.outside]⟩
        | some regions =>
            exact inside previous lead trail value left span regions some found
              (partsEq ▸ inSpans) start built
      obtain ⟨first, last, rfl⟩ := List.append_of_mem member
      rw [List.flatMap_append, List.flatMap_cons, Piece.paint_append, Piece.paint_append]
      exact own.mono ⟨_, _, List.append_assoc _ _ _⟩

end Substitution

namespace Text

def IsSeam (first second : List Char) : Prop :=
  first = [] ∨ first.getLast? = some '\n' ∨ second = []

variable {lead first second stretch : List Char}

theorem IsSeam.infix (seam : IsSeam first second) (onLine : '\n' ∉ stretch)
    (found : stretch <:+: first ++ second) : stretch <:+: first ∨ stretch <:+: second := by
  rcases seam with rfl | ended | rfl
  · exact .inr found
  · obtain ⟨init, rfl⟩ := List.getLast?_eq_some_iff.mp ended
    rw [List.append_assoc, List.singleton_append] at found
    exact (infix_of_wall found onLine).imp_left fun inInit =>
      inInit.trans (List.prefix_append _ _).isInfix
  · exact .inl (by simpa using found)

theorem IsSeam.drop (seam : IsSeam (lead ++ first) second) : IsSeam first second := by
  rcases seam with absent | ended | rfl
  · exact .inl (List.append_eq_nil_iff.mp absent).2
  · by_cases empty : first = []
    · exact .inl empty
    · rw [List.getLast?_append_of_ne_nil lead empty] at ended
      exact .inr (.inl ended)
  · exact .inr (.inr rfl)

end Text

structure Span.AtSeams (offset : Nat) (text : List Char) (span : Span) : Prop where
  start : Text.IsSeam (text.take (span.start - offset)) (text.drop (span.start - offset))
  stop : Text.IsSeam (text.take (span.stop - offset)) (text.drop (span.stop - offset))

theorem Span.AtSeams.drop {offset : Nat} {lead text : List Char} {span : Span}
    (atSeams : span.AtSeams offset (lead ++ text)) (late : offset + lead.length ≤ span.start)
    (filled : span.start < span.stop) : span.AtSeams (offset + lead.length) text := by
  have cut {place : Nat} (past : offset + lead.length ≤ place)
      (seam : Text.IsSeam ((lead ++ text).take (place - offset))
        ((lead ++ text).drop (place - offset))) :
      Text.IsSeam (text.take (place - (offset + lead.length)))
        (text.drop (place - (offset + lead.length))) := by
    rw [List.take_append, List.drop_append, List.take_of_length_le (by omega),
      List.drop_of_length_le (by omega), List.nil_append, Nat.sub_sub] at seam
    exact seam.drop
  exact ⟨cut late atSeams.start, cut (late.trans filled.le) atSeams.stop⟩

theorem Span.atSeams_strayDollars {regions : List Region} {pair : Region × List Span}
    (member : pair ∈ regions.zip (strayDollars regions)) :
    ∀ span ∈ pair.2, span.AtSeams 0 pair.1.text := by
  intro span inSpans
  obtain ⟨index, sub⟩ := strayDollars_sublist member
  obtain ⟨fragment, inRegion, rfl⟩ := List.mem_map.mp (sub.subset inSpans)
  obtain ⟨left, right, split⟩ := List.append_of_mem inRegion
  obtain ⟨above, below, linesEq, _, _, spanEq, _⟩ := Fragment.ofLines_split split
  have whole := Text.flatten_physicalLines pair.1.text
  rw [linesEq, List.flatten_append, List.flatten_cons] at whole
  have upper : Text.IsSeam above.flatten (fragment.text ++ below.flatten) := by
    rcases List.eq_nil_or_concat' above with rfl | ⟨others, last, rfl⟩
    · exact .inl rfl
    · rw [List.append_assoc] at linesEq
      rcases Text.physicalLines_shape linesEq with ⟨body, rfl, _⟩ | ⟨_, isNil⟩
      · exact .inr (.inl (by simp))
      · simp at isNil
  have lower : Text.IsSeam (above.flatten ++ fragment.text) below.flatten := by
    rcases Text.physicalLines_shape linesEq with ⟨body, textEq, _⟩ | ⟨_, rfl⟩
    · exact .inr (.inl (by simp [textEq]))
    · exact .inr (.inr rfl)
  rw [← whole]
  constructor
  · rw [spanEq, Nat.zero_add, Nat.sub_zero, List.take_left, List.drop_left]
    exact upper
  · rw [spanEq, Nat.zero_add, Nat.sub_zero, ← List.length_append, ← List.append_assoc,
      List.take_left, List.drop_left]
    exact lower

def Revision.Keeps (revise : Revision) (stretch : List Char) : Prop :=
  ∀ before front rest after,
    Painted.Holds stretch (Piece.paint (revise before (front ++ (stretch ++ rest)) after))

section Keeps

variable {revise : Revision} {stretch : List Char}

/-- A stretch on one line lies in a part that is held back, or in a part that is revised. -/
theorem Revision.Keeps.reviseAround (keeps : revise.Keeps stretch) (filled : stretch ≠ [])
    (onLine : '\n' ∉ stretch) {after before : Option Char} {offset : Nat} {text : List Char}
    {spans : List Span} (ordered : Span.AreOrdered (offset + text.length) spans)
    (later : ∀ span ∈ spans, offset ≤ span.start)
    (seams : ∀ span ∈ spans, span.AtSeams offset text) (found : stretch <:+: text) :
    Painted.Holds stretch (Piece.paint (reviseAround revise after before offset text spans)) := by
  have inFree {free : List Char} {next : Option Char} {before : Option Char}
      (inside : stretch <:+: free) : Painted.Holds stretch
        (Piece.paint (if free.isEmpty then [] else revise before free next)) := by
    obtain ⟨front, rest, rfl⟩ := inside
    rw [if_neg (by simp [filled]), List.append_assoc]
    exact keeps _ _ _ _
  induction spans generalizing before offset text with
  | nil => exact inFree found
  | cons span spans ih =>
      have bounds := ordered.inside span (by simp)
      have start := later span (by simp)
      obtain ⟨free, held, left, rfl, freeLength, heldLength, revised, orderedRest, next⟩ :=
        exists_reviseAround revise after before ordered start
      have upTo : span.stop - offset = (free ++ held).length := by
        rw [List.length_append]
        omega
      have own := seams span (by simp)
      have atStart := own.start
      have atStop := own.stop
      rw [← freeLength, List.take_left, List.drop_left] at atStart
      rw [upTo, ← List.append_assoc, List.take_left, List.drop_left] at atStop
      rw [revised, Piece.paint_append, Piece.paint_eq_append (Region.outside held)]
      rcases atStart.infix onLine found with inside | others
      · exact (inFree inside).mono (List.prefix_append _ _).isInfix
      · rcases atStop.drop.infix onLine others with inHeld | inLeft
        · have own : Painted.Holds stretch (Piece.paint [Region.outside held]) :=
            Painted.holds_region (List.mem_singleton.mpr rfl) inHeld
          exact own.mono ⟨_, _, List.append_assoc _ _ _⟩
        · have stop : offset + (free ++ held).length = span.stop := by omega
          have rest := @ih (Text.lastOr (Text.lastOr before free) held) span.stop left orderedRest
            next (fun other member => ?_) inLeft
          · rw [← List.append_assoc]
            exact rest.mono (List.suffix_append _ _).isInfix
          · have seam := seams other (by simp [member])
            rw [← List.append_assoc] at seam
            exact stop ▸ seam.drop (stop ▸ next other member) (orderedRest.inside other member).1

end Keeps

theorem holds_reviseOutside {revise : Revision} {stretch : List Char} {skip : Region → Bool}
    {regions : List Region} {held : List (List Span)} {region : Region} (member : region ∈ regions)
    (found : stretch <:+: region.text)
    (own : ∀ before after spans, spans = [] ∨ (region, spans) ∈ regions.zip held →
      Painted.Holds stretch (Piece.paint (reviseAround revise after before 0 region.text spans))) :
    Painted.Holds stretch (Piece.paint (reviseOutside revise regions skip held)) := by
  rw [reviseOutside, Piece.paint_fuse]
  generalize (none : Option Char) = before
  induction regions generalizing before held with
  | nil => simp at member
  | cons first regions ih =>
      rw [reviseOutsideAfter, Piece.paint_append]
      rcases List.mem_cons.mp member with rfl | later
      · refine Painted.Holds.mono (List.prefix_append _ _).isInfix ?_
        split
        · refine own _ _ _ ?_
          cases held with
          | nil => exact .inl rfl
          | cons spans held => exact .inr (by simp)
        · exact Painted.holds_region (List.mem_singleton.mpr rfl) found
      · refine Painted.Holds.mono (List.suffix_append _ _).isInfix (ih later ?_ _)
        intro before after spans among
        refine own before after spans (among.imp_right fun inZip => ?_)
        cases held with
        | nil => simp at inZip
        | cons others held => exact List.mem_cons_of_mem _ inZip

/-- A revision that keeps a stretch keeps it also where lines with a stray dollar are held back. -/
theorem Revision.Keeps.strayDollars {revise : Revision} {stretch : List Char}
    (keeps : revise.Keeps stretch) (filled : stretch ≠ []) (onLine : '\n' ∉ stretch)
    {skip : Region → Bool} {regions : List Region} {region : Region} (member : region ∈ regions)
    (found : stretch <:+: region.text) :
    Painted.Holds stretch
      (Piece.paint (reviseOutside revise regions skip (strayDollars regions))) := by
  refine holds_reviseOutside member found fun before after spans among => ?_
  rcases among with rfl | inZip
  · exact keeps.reviseAround filled onLine ⟨by simp, by simp⟩ (by simp) (by simp) found
  · exact keeps.reviseAround filled onLine (by simpa using ordered_strayDollars regions _ inZip)
      (by simp) (Span.atSeams_strayDollars inZip) found

end DollarMath
