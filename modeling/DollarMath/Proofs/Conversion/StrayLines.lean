import DollarMath.Proofs.Conversion.PlainReading
import DollarMath.Proofs.Conversion.TokenPlaces

/-!
Lines with a stray dollar come through the stages that hold them back. What is made inline math does
not touch such a line, not even where it reaches over line feeds.
-/

namespace DollarMath

def KeepsLines (isHeld : Nat → Bool) (old new : List Region) : Prop :=
  (Text.splitFeeds (Piece.join new)).length = (Text.splitFeeds (Piece.join old)).length ∧
    ∀ number, isHeld number = true →
      Text.lineAt (Piece.join new) number = Text.lineAt (Piece.join old) number

theorem keepsLines_of_onLine {isHeld : Nat → Bool} {old new : List Region}
    (feeds : (Piece.join new).count '\n' = (Piece.join old).count '\n')
    (same : ∀ number, isHeld number = true →
      Painted.onLine number 0 (Piece.paint new) = Painted.onLine number 0 (Piece.paint old)) :
    KeepsLines isHeld old new := by
  refine ⟨by rw [Text.length_splitFeeds, Text.length_splitFeeds, feeds], fun number held => ?_⟩
  rw [← Painted.text_paint, ← Painted.text_paint, Painted.lineAt_text _ 0, Painted.lineAt_text _ 0,
    Nat.zero_add, same number held]

namespace PlainBrackets

theorem reworks_convert (style : Style) (regions : List Region) :
    Reworks (fun place => ∃ inside, place.text = style.opening :: inside ++ [style.closing] ∧
        '\n' ∉ inside ∧ '\n' ∉ place.body ∧ isOnStrayLine regions place.before = false) [] []
      (Piece.paint regions) (Piece.paint (convert style regions)) := by
  obtain ⟨parts, sourcesEq, resultsEq, placed⟩ :=
    exists_parts_convertFrom style (holdsBack_strayDollars regions)
  rw [convert, Piece.paint_fuse]
  refine ⟨parts, sourcesEq, resultsEq, fun place member => ?_⟩
  obtain ⟨_, _, _, _, _, read⟩ := (placed place).mp member
  cases read with
  | @intro front inside back _ _ _ onLine _ free _ =>
      exact ⟨inside, rfl, onLine, fun inBody => onLine ((Text.strip_isInfix inside).subset inBody),
        free⟩

theorem keepsLines_convert {style : Style} (bare : style.opening ≠ '\n' ∧ style.closing ≠ '\n')
    (regions : List Region) : KeepsLines (hasStrayAt regions) regions (convert style regions) := by
  have reworks : Reworks (fun place => place.text.count '\n' = 0 ∧ place.KeepsFeeds ∧
      isOnStrayLine regions place.before = false) [] [] (Piece.paint regions)
      (Piece.paint (convert style regions)) := (reworks_convert style regions).mono (by
    rintro place - - - - - ⟨inside, textEq, onLine, noFeed, free⟩
    have empty : place.text.count '\n' = 0 := by
      rw [textEq, List.count_eq_zero]
      simp [onLine, bare.1.symm, bare.2.symm]
    exact ⟨empty, by rw [Place.KeepsFeeds, empty, List.count_eq_zero_of_not_mem noFeed], free⟩)
  refine keepsLines_of_onLine ?_ fun number stray => ?_
  · rw [← Painted.text_paint, ← Painted.text_paint]
    exact reworks.count_feed fun place rule => rule.2.1
  · refine reworks.onLine_eq fun place rule => ⟨rule.2.1, ?_⟩
    obtain ⟨empty, _, free⟩ := rule
    have other : number ≠ place.before.count '\n' := by
      rintro rfl
      rw [isOnStrayLine, stray] at free
      exact absurd free (by decide)
    rw [Place.Avoids, List.count_append, empty]
    omega

end PlainBrackets

namespace BareTokens

theorem keepsFeeds_of_obeys {isHeld : List Char → Bool} {place : Place}
    (obeys : place.Obeys Apart False isHeld) : place.KeepsFeeds := by
  obtain ⟨before, after, ⟨replaced, _⟩, _⟩ := obeys.replaced
  exact (isSwap_of_replaces replaced).count_feed

theorem count_feed_pass {revise : Revision} (follows : revise.Follows Apart)
    (regions : List Region) :
    (Piece.join (pass revise regions)).count '\n' = (Piece.join regions).count '\n' := by
  rw [← Painted.text_paint, ← Painted.text_paint]
  exact (reworks_pass follows False.elim).count_feed fun place => keepsFeeds_of_obeys

theorem onLine_pass {revise : Revision} (follows : revise.Follows Apart) {regions : List Region}
    {number : Nat} (stray : hasStrayAt regions number = true) :
    Painted.onLine number 0 (Piece.paint (pass revise regions)) =
      Painted.onLine number 0 (Piece.paint regions) := by
  refine (reworks_pass follows False.elim).onLine_eq fun place obeys =>
    ⟨keepsFeeds_of_obeys obeys, ?_⟩
  obtain ⟨before, after, ⟨replaced, _⟩, _⟩ := obeys.replaced
  have ends := (isSwap_of_replaces replaced).last.ne '\n' (by decide)
  rw [Place.Avoids, List.count_append]
  by_contra touched
  obtain ⟨front, char, back, textEq, count⟩ := Text.exists_char_on_line obeys.filled ends
    (number - place.before.count '\n') (by omega)
  have free := obeys.clear front char back textEq
  have same : place.before.count '\n' + front.count '\n' = number := by omega
  rw [isOnStrayLine, List.count_append, same, stray] at free
  exact absurd free (by decide)

theorem hasStrayAt_pass {revise : Revision} (follows : revise.Follows Apart)
    {regions : List Region} (fused : Piece.IsFused regions) {number : Nat}
    (stray : hasStrayAt regions number = true) :
    hasStrayAt (pass revise regions) number = true := by
  rw [← stray]
  exact hasStrayAt_congr (Piece.isFused_fuse _) fused (onLine_pass follows stray)

theorem keepsLines_wrap (regions : List Region) :
    KeepsLines (fun number => hasStrayAt regions number && hasStrayAt (Piece.fuse regions) number)
      regions (wrap regions) := by
  refine keepsLines_of_onLine ?_ fun number stray => ?_
  · rw [wrap, count_feed_pass follows_script, count_feed_pass follows_wrapMacros,
      count_feed_pass follows_degree]
  · rw [Bool.and_eq_true] at stray
    have first := onLine_pass follows_degree stray.1
    have strayFirst : hasStrayAt (pass (substitution degree toDegree) regions) number = true := by
      rw [← stray.2]
      refine hasStrayAt_congr (isFused_pass _ _) (Piece.isFused_fuse _) ?_
      rw [first, Piece.paint_fuse]
    have straySecond := hasStrayAt_pass follows_wrapMacros (isFused_pass _ _) strayFirst
    rw [wrap, onLine_pass follows_script straySecond, onLine_pass follows_wrapMacros strayFirst,
      first]

end BareTokens

/-- The stages that look for brackets and bare tokens leave the lines with a stray dollar as they
are. Bare tokens are wrapped in passes that fuse the regions, so that there a line has to have its
stray dollar in the fused regions, too. -/
theorem strayLines_kept (regions : List Region) :
    KeepsLines (hasStrayAt regions) regions
        (PlainBrackets.convert PlainBrackets.squares regions) ∧
      KeepsLines (hasStrayAt regions) regions (PlainBrackets.convert PlainBrackets.parens regions) ∧
      KeepsLines (fun number => hasStrayAt regions number && hasStrayAt (Piece.fuse regions) number)
        regions (BareTokens.wrap regions) ∧
      (Piece.IsFused regions → KeepsLines (hasStrayAt regions) regions (BareTokens.wrap regions)) := by
  refine ⟨PlainBrackets.keepsLines_convert (by decide) regions,
    PlainBrackets.keepsLines_convert (by decide) regions, BareTokens.keepsLines_wrap regions,
    fun fused => ?_⟩
  simpa only [Piece.fuse_eq_self fused, Bool.and_self] using BareTokens.keepsLines_wrap regions

/-- A backslash in a region of its own escapes the dollar of the next one once the two are fused. -/
theorem strayLine_not_kept :
    ¬ ∀ regions : List Region,
      KeepsLines (hasStrayAt regions) regions (BareTokens.wrap regions) := by
  intro kept
  have same := (kept [Region.outside ['\\'], Region.outside "$ \\sqrt\x7b2\x7d".toList]).2 0
    (by decide +kernel)
  revert same
  decide +kernel

end DollarMath
