import DollarMath.Document.Segmentation
import DollarMath.Proofs.Document.Fences
import DollarMath.Proofs.Region.Passes

/-!
How prose is cut into regions: passes that mark pieces of the text outside and change no character.
-/

namespace DollarMath

namespace RegionKind

/-- Code and links, which no conversion makes or alters. -/
def isVerbatim : RegionKind → Bool
  | code => true
  | link => true
  | _ => false

def Ends : RegionKind → Option Char → Prop
  | code, last => last = some '\x60'
  | link, last => last ≠ some '\n'
  | _, _ => True

theorem Ends.notFeed {kind : RegionKind} {last : Option Char} (ends : kind.Ends last)
    (verbatim : kind.isVerbatim = true) : last ≠ some '\n' := by
  cases kind with
  | code =>
      rintro rfl
      exact absurd (Option.some.inj ends) (by decide)
  | link => exact ends
  | display => exact absurd verbatim (by decide)
  | inline => exact absurd verbatim (by decide)
  | outside => exact absurd verbatim (by decide)

end RegionKind

namespace Document

inductive Marks : Replacement
  | mark {kind text before after} : kind ≠ .outside → kind.Ends text.getLast? →
      Marks before text [⟨kind, text⟩] after

abbrev MarkedTo (old new : Painted) : Prop :=
  Revised Marks none none old new

theorem text_eq_of_marks {after before : Option Char} {old new : Painted}
    (marked : Revised Marks after before old new) : new.text = old.text := by
  induction marked with
  | nil => rfl
  | keep _ ih => simp [ih]
  | replace _ replaced _ ih =>
      cases replaced with
      | mark _ _ => simp [ih]

theorem marks_anywhere {after before after' before' : Option Char} {old new : Painted}
    (marked : Revised Marks after before old new) : Revised Marks after' before' old new := by
  induction marked generalizing before' with
  | nil => exact .nil
  | keep _ ih => exact .keep ih
  | replace nonempty replaced _ ih =>
      cases replaced with
      | mark frozen ends => exact .replace nonempty (.mark frozen ends) ih

theorem substitutes_marking {recognize : Text.Recognizer Unit} {kind : RegionKind}
    (frozen : kind ≠ .outside)
    (spec : ∀ previous text size, recognize previous text = some (size, ()) →
      ∃ taken left, text = taken ++ left ∧ size = taken.length ∧ taken ≠ [] ∧
        kind.Ends taken.getLast?) :
    Substitutes recognize (fun _ taken _ _ => some [⟨kind, taken⟩]) Marks := by
  intro previous text size value found
  obtain ⟨taken, left, whole, sizeEq, nonempty, ends⟩ := spec previous text size found
  refine ⟨taken, left, whole, sizeEq, nonempty, ?_⟩
  intro before after regions _ built
  simp only [Option.some.injEq] at built
  subst built
  exact .mark frozen ends

theorem follows_marking {recognize : Text.Recognizer Unit} {kind : RegionKind}
    (frozen : kind ≠ .outside)
    (spec : ∀ previous text size, recognize previous text = some (size, ()) →
      ∃ taken left, text = taken ++ left ∧ size = taken.length ∧ taken ≠ [] ∧
        kind.Ends taken.getLast?) :
    (marking recognize kind).Follows Marks :=
  (substitutes_marking frozen spec).revised

end Document

theorem InlineCode.exists_body {previous : Option Char} {text : List Char} {size : Nat}
    (found : span previous text = some (size, ())) :
    ∃ body left, text = '\x60' :: (body ++ ['\x60']) ++ left ∧ size = body.length + 2 ∧ body ≠ [] ∧
      ∀ char ∈ body, (char != '\x60' && !Text.isReturn char) = true := by
  unfold span at found
  split at found
  next rest =>
    dsimp only at found
    split at found
    next closed =>
      simp only [Option.some.injEq, Prod.mk.injEq, and_true] at found
      subst found
      simp only [Bool.and_eq_true, beq_iff_eq] at closed
      have whole := List.takeWhile_append_dropWhile
        (p := fun char => char != '\x60' && !Text.isReturn char) (l := rest)
      have own : ∀ char ∈ rest.takeWhile (fun char => char != '\x60' && !Text.isReturn char),
          (char != '\x60' && !Text.isReturn char) = true :=
        fun char member => List.mem_takeWhile_imp
          (p := fun char => char != '\x60' && !Text.isReturn char) member
      generalize rest.takeWhile _ = body at whole closed own ⊢
      rw [← whole, List.drop_left] at closed
      obtain ⟨after, afterEq⟩ := List.head?_eq_some_iff.mp closed.2
      refine ⟨body, after, ?_, rfl, by simpa using closed.1, own⟩
      rw [← whole, afterEq]
      simp
    next => simp at found
  next => simp at found

theorem InlineCode.span_of_body {body : List Char} (filled : body ≠ [])
    (own : ∀ char ∈ body, (char != '\x60' && !Text.isReturn char) = true) (previous : Option Char)
    (left : List Char) :
    span previous ('\x60' :: (body ++ ['\x60']) ++ left) = some (body.length + 2, ()) := by
  have taken : (body ++ '\x60' :: left).takeWhile
      (fun char => char != '\x60' && !Text.isReturn char) = body := by
    rw [List.takeWhile_append_of_pos own, List.takeWhile_cons_of_neg (by simp), List.append_nil]
  simp [span, taken, filled]

theorem InlineCode.span_eq_some {previous : Option Char} {text : List Char} {size : Nat}
    (found : span previous text = some (size, ())) :
    ∃ taken left, text = taken ++ left ∧ size = taken.length ∧ taken ≠ [] ∧
      taken.getLast? = some '\x60' := by
  obtain ⟨body, left, textEq, sizeEq, _⟩ := exists_body found
  refine ⟨'\x60' :: body ++ ['\x60'], left, textEq, ?_, by simp, List.getLast?_concat⟩
  rw [sizeEq]
  simp

theorem Link.afterScheme?_eq_some {text rest : List Char} (found : afterScheme? text = some rest) :
    ∃ scheme, text = scheme ++ rest := by
  unfold afterScheme? at found
  split at found
  next => simp at found
  next first tail =>
    split at found
    next =>
      have word := Text.afterWord?_eq_some found
      have whole := List.takeWhile_append_dropWhile (p := isSchemeChar) (l := tail)
      rw [word] at whole
      refine ⟨first :: tail.takeWhile isSchemeChar ++ [':', '/', '/'], ?_⟩
      conv_lhs => rw [← whole]
      simp
    next => simp at found

theorem Link.address_eq_some {previous : Option Char} {text : List Char} {size : Nat}
    (found : address previous text = some (size, ())) :
    ∃ taken left, text = taken ++ left ∧ size = taken.length ∧ taken ≠ [] ∧
      taken.getLast? ≠ some '\n' := by
  unfold address at found
  split at found
  next => simp at found
  next rest opened =>
    dsimp only at found
    split at found
    next => simp at found
    next nonempty =>
      simp only [Option.some.injEq, Prod.mk.injEq, and_true] at found
      subst found
      obtain ⟨scheme, rfl⟩ := afterScheme?_eq_some opened
      have whole := List.takeWhile_append_dropWhile (p := isAddressChar) (l := rest)
      have address : ∀ char ∈ rest.takeWhile isAddressChar, isAddressChar char = true :=
        fun _ member => List.mem_takeWhile_imp member
      generalize rest.takeWhile isAddressChar = body at *
      have notNil : body ≠ [] := fun isNil => nonempty (by rw [isNil]; rfl)
      obtain ⟨inside, last, rfl⟩ := (List.eq_nil_or_concat' body).resolve_left notNil
      refine ⟨scheme ++ (inside ++ [last]), rest.dropWhile isAddressChar, ?_, ?_, by simp, ?_⟩
      · rw [List.append_assoc, whole]
      · simp
      · rw [← List.append_assoc, List.getLast?_concat]
        intro feed
        simp only [Option.some.injEq] at feed
        have own := address last (by simp)
        rw [feed] at own
        exact absurd own (by decide)

theorem InlineMath.span_eq_some {previous : Option Char} {text : List Char} {size : Nat}
    (found : span previous text = some (size, ())) :
    ∃ taken left, text = taken ++ left ∧ size = taken.length ∧ taken ≠ [] := by
  unfold span at found
  split at found
  next rest =>
    split at found
    next => simp at found
    next =>
      dsimp only at found
      split at found
      next after opened =>
        split at found
        next =>
          simp only [Option.some.injEq, Prod.mk.injEq, and_true] at found
          subst found
          have whole := List.takeWhile_append_dropWhile
            (p := fun char => char != '$' && char != '\n') (l := rest)
          generalize rest.takeWhile _ = body at whole opened ⊢
          rw [← whole, List.drop_left] at opened
          refine ⟨'$' :: body ++ ['$'], after, ?_, by simp, by simp⟩
          rw [← whole, opened]
          simp
        next => simp at found
      next => simp at found
  next => simp at found

theorem DisplayMath.onLine_eq_some {before : Option Char} {text : List Char} {size : Nat} {value : Unit}
    (found : onLine before text = some (size, value)) :
    ∃ init left, text = init ++ '$' :: left ∧ size = init.length + 1 := by
  unfold onLine at found
  split at found
  next first rest =>
    split at found
    next body after split =>
      split at found
      next => simp at found
      next =>
        simp only [Option.some.injEq, Prod.mk.injEq] at found
        refine ⟨'$' :: '$' :: first :: body ++ ['$'], after, ?_, ?_⟩
        · rw [Text.splitAtFirst?_eq_some split]
          simp
        · simp [← found.1]
    next => simp at found
  next => simp at found

namespace Link

theorem follows_address : (marking address .link).Follows Document.Marks := by
  refine Document.follows_marking (by decide) fun previous text size found => ?_
  obtain ⟨taken, left, whole, sizeEq, nonempty, ends⟩ := address_eq_some found
  exact ⟨taken, left, whole, sizeEq, nonempty, ends⟩

theorem strip_nil : Text.strip [] = [] := rfl

theorem revised_freezeLine (before : Option Char) (line : List Char) (after : Option Char) :
    Revised Document.Marks after before (Painted.outside line) (Piece.paint (freezeLine line)) := by
  unfold freezeLine
  dsimp only
  split
  next blob =>
    have lineEq := Text.lineBody_append_lineReturn line
    have filled : Text.lineBody line ≠ [] := by
      intro isNil
      rw [isNil, strip_nil] at blob
      simp [isBlob] at blob
    have ends : (Text.lineBody line).getLast? ≠ some '\n' := by
      intro feed
      have last := Text.getLast?_lineBody line
      rw [feed] at last
      simp [Text.isReturn] at last
    have marked : Revised Document.Marks (Text.headOr (Text.lineReturn line) after) before
        (Painted.outside (Text.lineBody line)) (Piece.paint [Region.link (Text.lineBody line)]) :=
      .single filled (.mark (by decide) ends)
    have whole : Revised Document.Marks after before
        (Painted.outside (Text.lineBody line) ++ Painted.outside (Text.lineReturn line))
        (Piece.paint [Region.link (Text.lineBody line)] ++
          Painted.outside (Text.lineReturn line)) :=
      .append (by simpa using marked) (.refl _ _)
    rw [← Painted.outside_append, lineEq, ← Painted.paint_outside (Text.lineReturn line),
      ← Piece.paint_append] at whole
    exact whole
  next => exact Document.marks_anywhere (follows_address none line none)

theorem follows_freezeLines :
    Revision.Follows (fun _ text _ => (Text.lines text).flatMap freezeLine) Document.Marks := by
  intro before text after
  show Revised Document.Marks after before (Painted.outside text)
    (Piece.paint ((Text.lines text).flatMap freezeLine))
  have textEq := Text.flatten_lines text
  generalize Text.lines text = lines at textEq ⊢
  subst textEq
  induction lines generalizing before with
  | nil => exact .nil
  | cons line lines ih =>
      rw [List.flatten_cons, List.flatMap_cons, Painted.outside_append, Piece.paint_append]
      refine .append (revised_freezeLine _ _ _) ?_
      exact ih _

end Link

namespace DisplayMath

theorem revised_markText (spans : List Span) (offset : Nat) (before : Option Char)
    (text : List Char) (after : Option Char) :
    Revised Document.Marks after before (Painted.outside text)
      (Piece.paint (markText spans offset text)) := by
  induction text generalizing offset before with
  | nil => exact .nil
  | cons char text ih =>
      have splitEq : Painted.outside (char :: text) =
          Painted.outside [char] ++ Painted.outside text := by simp
      rw [markText, Piece.paint_cons, splitEq]
      refine .append ?_ (ih _ _)
      split
      · have marked : Revised Document.Marks (Text.headOr text after) before
            (Painted.outside [char]) (Piece.paint [⟨.display, [char]⟩]) :=
          .single (by simp) (.mark (by decide) trivial)
        simpa [Region.display] using marked
      · exact .refl _ _

theorem revised_markFrom (spans : List Span) (offset : Nat) (before : Option Char)
    (regions : List Region) :
    Revised Document.Marks none before (Piece.paint regions)
      (Piece.paint (markFrom spans offset regions)) := by
  induction regions generalizing offset before with
  | nil => exact .nil
  | cons region regions ih =>
      rw [markFrom, Piece.paint_append, Piece.paint_eq_append region regions]
      refine .append ?_ (ih _ _)
      split
      next free =>
        rw [Painted.paint_of_isOutside free]
        exact revised_markText _ _ _ _ _
      next => exact .refl _ _

theorem isFused_split {regions : List Region} (fused : Piece.IsFused regions) :
    Piece.IsFused (split regions) := by
  unfold split
  dsimp only
  split
  · exact fused
  · exact Piece.isFused_fuse _

theorem marked_split (regions : List Region) :
    Document.MarkedTo (Piece.paint regions) (Piece.paint (split regions)) := by
  unfold split
  dsimp only
  split
  · exact .refl _ _
  · rw [Piece.paint_fuse]
    exact revised_markFrom _ _ _ _

end DisplayMath

namespace Document

theorem marked_reviseOutside {revise : Revision} (follows : revise.Follows Marks)
    {regions : List Region} (nonempty : ∀ region ∈ regions, region.text ≠ []) :
    MarkedTo (Piece.paint regions) (Piece.paint (reviseOutside revise regions)) := by
  refine revised_reviseOutside follows nonempty ?_
  simp

theorem follows_codeSpans : (marking InlineCode.span .code).Follows Marks := by
  refine follows_marking (by decide) fun previous text size found => ?_
  obtain ⟨taken, left, whole, sizeEq, nonempty, ends⟩ := InlineCode.span_eq_some found
  exact ⟨taken, left, whole, sizeEq, nonempty, ends⟩

theorem follows_inlineMath : (marking InlineMath.span .inline).Follows Marks := by
  refine follows_marking (by decide) fun previous text size found => ?_
  obtain ⟨taken, left, whole, sizeEq, nonempty⟩ := InlineMath.span_eq_some found
  exact ⟨taken, left, whole, sizeEq, nonempty, trivial⟩

theorem marked_freeze {text : List Char} (mixed : Link.isBlob (Text.strip text) = false) :
    Relation.ReflTransGen MarkedTo
      (Piece.paint (Link.freeze (InlineCode.split [Region.outside text])))
      (Piece.paint (proseRegions text)) := by
  have displays := DisplayMath.marked_split (Link.freeze (InlineCode.split [Region.outside text]))
  have inlines : MarkedTo _ (Piece.paint (InlineMath.split
      (DisplayMath.split (Link.freeze (InlineCode.split [Region.outside text]))))) :=
    marked_reviseOutside follows_inlineMath
      (DisplayMath.isFused_split (Piece.isFused_fuse _)).nonempty
  rw [proseRegions, mixed]
  exact .tail (.single displays) inlines

theorem marked_proseRegions {text : List Char} (nonempty : text ≠ [])
    (mixed : Link.isBlob (Text.strip text) = false) :
    Relation.ReflTransGen MarkedTo (Painted.outside text) (Piece.paint (proseRegions text)) := by
  have filled : ∀ region ∈ [Region.outside text], region.text ≠ [] := by
    simpa [Region.outside] using nonempty
  have codes := marked_reviseOutside follows_codeSpans filled
  rw [Painted.paint_outside] at codes
  have links : MarkedTo (Piece.paint (InlineCode.split [Region.outside text]))
      (Piece.paint (Link.freeze (InlineCode.split [Region.outside text]))) :=
    marked_reviseOutside Link.follows_freezeLines (Piece.isFused_fuse _).nonempty
  exact .trans (.tail (.single codes) links) (marked_freeze mixed)

theorem text_eq_of_marked {old new : Painted} (marked : Relation.ReflTransGen MarkedTo old new) :
    new.text = old.text := by
  induction marked with
  | refl => rfl
  | tail _ pass ih => exact (text_eq_of_marks pass).trans ih

theorem join_proseRegions (text : List Char) : Piece.join (proseRegions text) = text := by
  by_cases nonempty : text = []
  · subst nonempty
    decide +kernel
  · by_cases blob : Link.isBlob (Text.strip text) = true
    · simp [proseRegions, blob, Region.link]
    · have marked := text_eq_of_marked (marked_proseRegions nonempty (by simpa using blob))
      simpa using marked

theorem join_segmentRegions (segment : Segment) :
    Piece.join (segmentRegions segment) = segment.text := by
  unfold segmentRegions
  split
  · simp [Region.code]
  · exact join_proseRegions segment.text

theorem join_flatMap_segmentRegions (segments : List Segment) :
    Piece.join (segments.flatMap segmentRegions) = Piece.join segments := by
  induction segments with
  | nil => rfl
  | cons segment segments ih => simp [join_segmentRegions, ih]

theorem isFused_regions (text : List Char) : Piece.IsFused (regions text) :=
  Piece.isFused_fuse _

theorem join_regions (text : List Char) : Piece.join (regions text) = text := by
  rw [regions, Piece.join_fuse, join_flatMap_segmentRegions, Fence.join_split]

end Document

end DollarMath
