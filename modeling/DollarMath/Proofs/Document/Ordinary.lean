import DollarMath.Proofs.Document.DisplayFree
import DollarMath.Proofs.Document.LinkShapes
import DollarMath.Proofs.Region.Feeds

/-!
Texts without code, links and addresses. Unless two dollars stand side by side, their regions are
inline math and the text between.
-/

namespace DollarMath

structure IsOrdinary (text : List Char) : Prop where
  noTick : '\x60' ∉ text
  noLabel : '[' ∉ text
  noScheme : ¬ [':', '/', '/'] <:+: text

theorem IsOrdinary.mono {part whole : List Char} (ordinary : IsOrdinary whole)
    (inWhole : part <:+: whole) : IsOrdinary part where
  noTick member := ordinary.noTick (inWhole.subset member)
  noLabel member := ordinary.noLabel (inWhole.subset member)
  noScheme found := ordinary.noScheme (found.trans inWhole)

theorem paint_reviseOutside_single (revise : Revision) {text : List Char} (filled : text ≠ []) :
    Piece.paint (reviseOutside revise [Region.outside text]) =
      Piece.paint (revise none text none) := by
  rw [reviseOutside, Piece.paint_fuse]
  simp [reviseOutsideAfter, reviseAround, Piece.isOutside, Region.outside, firstOf, filled]

theorem reviseOutside_single_eq_self {revise : Revision} {text : List Char} (filled : text ≠ [])
    (same : Piece.paint (revise none text none) = Painted.outside text) :
    reviseOutside revise [Region.outside text] = [Region.outside text] := by
  apply (isFused_reviseOutside _ _).eq_of_paint_eq (Piece.isFused_single filled)
  rw [paint_reviseOutside_single revise filled, same, Painted.paint_outside]

namespace InlineCode

theorem span_of_ne {char : Char} (other : char ≠ '\x60') (before : Option Char)
    (rest : List Char) : span before (char :: rest) = none := by
  unfold span
  split
  next same => exact absurd (List.cons.inj same).1 other
  next => rfl

theorem split_single {text : List Char} (filled : text ≠ []) (noTick : '\x60' ∉ text) :
    split [Region.outside text] = [Region.outside text] := by
  apply reviseOutside_single_eq_self filled
  apply paint_substitution_of_missed
  intro before char rest suffix
  apply span_of_ne
  rintro rfl
  exact noTick (suffix.subset (by simp))

end InlineCode

namespace Link

theorem not_isBlob_of_isOrdinary {text : List Char} (ordinary : IsOrdinary text) :
    isBlob text = false := by
  by_contra blob
  rcases (isBlob_iff.mp (by simpa using blob)).exists_mark with scheme | square
  · exact ordinary.noScheme scheme
  · exact ordinary.noLabel square

theorem address_of_isOrdinary {text : List Char} (ordinary : IsOrdinary text)
    (before : Option Char) : address before text = none := by
  have closed : afterScheme? text = none := by
    by_contra opened
    obtain ⟨rest, opened⟩ := Option.ne_none_iff_exists'.mp opened
    obtain ⟨scheme, rfl, isScheme⟩ := afterScheme?_iff.mp opened
    exact ordinary.noScheme (isScheme.ends.isInfix.trans (List.prefix_append _ _).isInfix)
  simp [address, closed]

theorem paint_freezeLine_of_isOrdinary {line : List Char} (ordinary : IsOrdinary line) :
    Piece.paint (freezeLine line) = Painted.outside line := by
  have mixed : isBlob (Text.strip (Text.lineBody line)) = false := by
    rw [Text.strip_lineBody]
    exact not_isBlob_of_isOrdinary (ordinary.mono (Text.strip_isInfix line))
  rw [freezeLine, mixed, if_neg Bool.false_ne_true]
  apply paint_substitution_of_missed
  intro before char rest suffix
  exact address_of_isOrdinary (ordinary.mono suffix.isInfix) before

theorem freeze_single {text : List Char} (filled : text ≠ []) (ordinary : IsOrdinary text) :
    freeze [Region.outside text] = [Region.outside text] := by
  apply reviseOutside_single_eq_self filled
  have each : ∀ line ∈ Text.lines text, IsOrdinary line := by
    intro line member
    rw [← Text.flatten_lines text] at ordinary
    exact ordinary.mono (List.infix_of_mem_flatten member)
  conv_rhs => rw [← Text.flatten_lines text]
  generalize Text.lines text = lines at each
  induction lines with
  | nil => rfl
  | cons line rest ih =>
      rw [List.flatMap_cons, Piece.paint_append, List.flatten_cons, Painted.outside_append,
        paint_freezeLine_of_isOrdinary (each line (by simp)),
        ih fun other member => each other (by simp [member])]

end Link

theorem DisplayMath.split_single {text : List Char} (free : ¬ ['$', '$'] <:+: text) :
    split [Region.outside text] = [Region.outside text] := by
  have whole : masked [Region.outside text] = text := by
    simp [masked, Region.outside, Piece.isOutside]
  rw [split, whole, spans_eq_nil free]
  rfl

theorem Document.regions_of_isOrdinary {text : List Char} (ordinary : IsOrdinary text)
    (free : ¬ ['$', '$'] <:+: text) :
    regions text = Piece.fuse (marking InlineMath.span .inline none text none) := by
  by_cases filled : text = []
  · subst filled
    have spelled := Piece.map_fst_paint (regions [])
    rw [join_regions, List.map_eq_nil_iff] at spelled
    apply (isFused_regions []).eq_of_paint_eq (Piece.isFused_fuse _)
    rw [spelled]
    simp [marking, substitution, Text.scan]
  · have mixed : Link.isBlob (Text.strip text) = false :=
      Link.not_isBlob_of_isOrdinary (ordinary.mono (Text.strip_isInfix text))
    apply (isFused_regions text).eq_of_paint_eq (Piece.isFused_fuse _)
    rw [regions, Piece.paint_fuse, Piece.paint_fuse, Fence.split_of_free filled ordinary.noTick,
      List.flatMap_singleton, segmentRegions, proseRegions, mixed,
      InlineCode.split_single filled ordinary.noTick, Link.freeze_single filled ordinary,
      DisplayMath.split_single free]
    exact paint_reviseOutside_single _ filled

end DollarMath
