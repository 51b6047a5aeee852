import DollarMath.Proofs.Document.Rims
import DollarMath.Proofs.Review.Veiled

/-!
What the review sees of prose, against the regions that the prose is cut into: where both find the
same display math, they find the same code, and the dollars that the review sees are those outside of
code and display math.
-/

namespace DollarMath

def RegionKind.isCounted : RegionKind → Bool
  | code => false
  | display => false
  | _ => true

def Painted.counted (painted : Painted) : Veiled :=
  painted.map fun stroke => (stroke.1, stroke.2.isCounted)

@[simp] theorem Painted.counted_append (first second : Painted) :
    counted (first ++ second) = counted first ++ counted second :=
  List.map_append

namespace Document

def linked (prose : List Char) : List Region :=
  if Link.isBlob (Text.strip prose) then [Region.link prose]
  else Link.freeze (InlineCode.split [Region.outside prose])

structure IsLinked (stroke : Char × Bool) (painted : Char × RegionKind) : Prop where
  char : painted.1 = stroke.1
  code : stroke.2 = false → painted.2 = .code ∨ painted.2 = .link
  plain : stroke.2 = true → painted.2 = .outside ∨ painted.2 = .link

theorem IsLinked.frozen_or_outside {stroke : Char × Bool} {painted : Char × RegionKind}
    (linked : IsLinked stroke painted) :
    painted.2 = .code ∨ painted.2 = .link ∨ painted.2 = .outside := by
  cases shown : stroke.2 with
  | true => exact .inr (linked.plain shown).symm
  | false => exact (linked.code shown).imp_right .inl

theorem paint_codeSpans (prose : List Char) :
    Piece.paint (InlineCode.split [Region.outside prose]) =
      (Review.codeVeil none prose).map fun stroke =>
        (stroke.1, if stroke.2 then RegionKind.outside else .code) := by
  have marked : Piece.paint (InlineCode.split [Region.outside prose]) =
      Piece.paint (marking InlineCode.span .code none prose none) := by
    cases prose with
    | nil => simp [InlineCode.split, reviseOutside, reviseOutsideAfter, Region.outside, reviseAround,
          marking, substitution, Text.scan, Piece.isOutside]
    | cons char rest =>
        simp [InlineCode.split, reviseOutside, reviseOutsideAfter, Piece.isOutside, Region.outside,
          reviseAround, firstOf]
  rw [marked, marking, substitution, Review.codeVeil, List.map_flatMap]
  generalize Text.scan InlineCode.span none prose = parts
  induction parts with
  | nil => rfl
  | cons part parts ih =>
      rw [List.flatMap_cons, List.flatMap_cons, Piece.paint_append, ih]
      cases part with
      | gap char => rfl
      | hit previous taken value next => simp [Function.comp_def]

/-- Freezing links turns text outside into links, and changes nothing else. -/
theorem forall₂_freeze (regions : List Region) :
    List.Forall₂ (fun old new => new.1 = old.1 ∧ (old.2 ≠ .outside → new.2 = old.2) ∧
        (old.2 = .outside → new.2 = .outside ∨ new.2 = .link))
      (Piece.paint regions) (Piece.paint (Link.freeze regions)) := by
  refine forall₂_reviseOutside (fun stroke => ⟨rfl, fun _ => rfl, .inl⟩) (fun before text after => ?_)
    regions
  refine Painted.forall₂_of_text ?_ fun stroke member => ⟨rfl, fun frozen => absurd rfl frozen, fun _ => ?_⟩
  · rw [text_eq_of_marks (Link.follows_freezeLines before text after), Painted.text_outside]
  · have avoids {kind : RegionKind} (link : .link ≠ kind) (free : .outside ≠ kind) : stroke.2 ≠ kind :=
      Link.freeOf_freezeLines link free (Text.lines text) stroke member
    cases kind : stroke.2 with
    | code => exact absurd kind (avoids (by decide) (by decide))
    | link => exact .inr rfl
    | display => exact absurd kind (avoids (by decide) (by decide))
    | inline => exact absurd kind (avoids (by decide) (by decide))
    | outside => exact .inl rfl

theorem isLinked_linked (prose : List Char) :
    List.Forall₂ IsLinked (Review.codeVeil none prose) (Piece.paint (linked prose)) := by
  have textEq := Review.text_codeVeil none prose
  unfold linked
  split
  next =>
    have painted : Piece.paint [Region.link prose] =
        (Review.codeVeil none prose).map fun stroke => (stroke.1, RegionKind.link) := by
      conv_lhs => rw [← textEq]
      simp [Region.link, Veiled.text]
    rw [painted, List.forall₂_map_right_iff]
    exact List.forall₂_same.mpr fun stroke _ => ⟨rfl, fun _ => .inr rfl, fun _ => .inr rfl⟩
  next =>
    have frozen := forall₂_freeze (InlineCode.split [Region.outside prose])
    rw [paint_codeSpans, List.forall₂_map_left_iff] at frozen
    refine frozen.imp fun stroke painted linked => ⟨linked.1, fun code => ?_, fun plain => ?_⟩
    · rw [code] at linked
      exact .inl (linked.2.1 (by simp))
    · rw [plain] at linked
      exact linked.2.2 rfl

structure IsInlined (old new : Char × RegionKind) : Prop where
  char : new.1 = old.1
  kind : new.2 = old.2 ∨ old.2 = .outside ∧ new.2 = .inline

namespace IsInlined

variable {old new : Char × RegionKind}

theorem isCounted_eq (inlined : IsInlined old new) : new.2.isCounted = old.2.isCounted := by
  rcases inlined.kind with kept | ⟨free, math⟩
  · rw [kept]
  · rw [free, math]
    rfl

theorem display_iff (inlined : IsInlined old new) : new.2 = .display ↔ old.2 = .display := by
  rcases inlined.kind with kept | ⟨free, math⟩
  · rw [kept]
  · simp [free, math]

end IsInlined

theorem forall₂_inlineMath (regions : List Region) :
    List.Forall₂ IsInlined (Piece.paint regions) (Piece.paint (InlineMath.split regions)) := by
  refine forall₂_reviseOutside (fun stroke => ⟨rfl, .inl rfl⟩) (fun before text after => ?_) regions
  refine Painted.forall₂_of_text ?_ fun stroke member => ⟨rfl, ?_⟩
  · rw [text_eq_of_marks (follows_inlineMath before text after), Painted.text_outside]
  · have avoids {kind : RegionKind} (math : .inline ≠ kind) (free : .outside ≠ kind) :
        stroke.2 ≠ kind :=
      freeOf_marking InlineMath.span math free before text after stroke member
    cases kind : stroke.2 with
    | code => exact absurd kind (avoids (by decide) (by decide))
    | link => exact absurd kind (avoids (by decide) (by decide))
    | display => exact absurd kind (avoids (by decide) (by decide))
    | inline => exact .inr ⟨rfl, rfl⟩
    | outside => exact .inl rfl

/-- Once links are frozen, what display math covers of the text outside becomes display math, and
inline math is made of the rest. -/
theorem forall₂_proseRegions (prose : List Char) :
    List.Forall₂ IsInlined
      ((Piece.paint (linked prose)).mapIdx
        (DisplayMath.reclassify (DisplayMath.spans (DisplayMath.masked (linked prose)))))
      (Piece.paint (proseRegions prose)) := by
  unfold proseRegions linked
  split
  next =>
    have hidden : '$' ∉ DisplayMath.masked [Region.link prose] := by
      rw [DisplayMath.masked_eq]
      intro dollar
      obtain ⟨stroke, member, same⟩ := List.mem_map.mp dollar
      have kept : (Region.link prose).kind ≠ .outside := by simp [Region.link]
      have frozen := Painted.frozen_paint kept stroke member
      exact DisplayMath.mask_ne_dollar frozen same
    have unmarked : (Piece.paint [Region.link prose]).mapIdx (DisplayMath.reclassify []) =
        Piece.paint [Region.link prose] := by
      refine List.ext_getElem? fun place => ?_
      rw [List.getElem?_mapIdx]
      cases (Piece.paint [Region.link prose])[place]? <;> simp [DisplayMath.reclassify]
    rw [DisplayMath.spans_eq_nil (DisplayMath.not_doubled hidden), unmarked]
    exact List.forall₂_same.mpr fun stroke _ => ⟨rfl, .inl rfl⟩
  next =>
    rw [← DisplayMath.paint_split]
    exact forall₂_inlineMath _

theorem counted_proseRegions (prose : List Char) :
    Painted.counted (Piece.paint (proseRegions prose)) =
      Painted.counted ((Piece.paint (linked prose)).mapIdx
        (DisplayMath.reclassify (DisplayMath.spans (DisplayMath.masked (linked prose))))) := by
  have related := forall₂_proseRegions prose
  generalize (Piece.paint (linked prose)).mapIdx _ = old, Piece.paint (proseRegions prose) = new
    at related ⊢
  induction related with
  | nil => rfl
  | cons own _ ih =>
      rw [Painted.counted, List.map_cons, own.char, own.isCounted_eq]
      exact congrArg _ ih

end Document

namespace Review

/-- The review finds the display math of prose where it is found once code and links are masked, and
sees the dollars of links. -/
structure SeesAlike (prose : List Char) : Prop where
  spans : DisplayMath.spans prose =
    DisplayMath.spans (DisplayMath.masked (Document.linked prose))
  links : ∀ place : Nat, (Piece.paint (Document.linked prose))[place]? = some ('$', RegionKind.link) →
    (blankCode (blankSpans (DisplayMath.spans prose) 0 prose))[place]? = some '$'

theorem seesAlike_iff {prose : List Char} : SeesAlike prose ↔
    DisplayMath.spans prose = DisplayMath.spans (DisplayMath.masked (Document.linked prose)) ∧
      ∀ place < (Piece.paint (Document.linked prose)).length,
        (Piece.paint (Document.linked prose))[place]? = some ('$', RegionKind.link) →
          (blankCode (blankSpans (DisplayMath.spans prose) 0 prose))[place]? = some '$' := by
  constructor
  · rintro ⟨spans, links⟩
    exact ⟨spans, fun place _ => links place⟩
  · rintro ⟨spans, links⟩
    exact ⟨spans, fun place link => links place (List.getElem?_eq_some_iff.mp link).1 link⟩

instance (prose : List Char) : Decidable (SeesAlike prose) :=
  decidable_of_iff _ seesAlike_iff.symm

def sight (prose : List Char) : Veiled :=
  (displayVeil (DisplayMath.spans prose) prose).both (codeVeil none prose)

theorem exists_at {prose : List Char} {place : Nat} {char : Char} (here : prose[place]? = some char) :
    ∃ plain kind, (codeVeil none prose)[place]? = some (char, plain) ∧
      (Piece.paint (Document.linked prose))[place]? = some (char, kind) ∧
      Document.IsLinked (char, plain) (char, kind) ∧
      (plain = false → Text.isReturn char = false) := by
  obtain ⟨lengths, all⟩ := List.forall₂_iff_get.mp (Document.isLinked_linked prose)
  have textEq := text_codeVeil none prose
  have shown : ((codeVeil none prose).map Prod.fst)[place]? = some char := by
    rw [← here]
    exact congrArg (·[place]?) textEq
  rw [List.getElem?_map] at shown
  obtain ⟨⟨own, plain⟩, stroke, rfl⟩ := Option.map_eq_some_iff.mp shown
  obtain ⟨bound, get⟩ := List.getElem?_eq_some_iff.mp stroke
  have bound' : place < (Piece.paint (Document.linked prose)).length := by rwa [← lengths]
  have linked := all place bound bound'
  rw [List.get_eq_getElem, List.get_eq_getElem, get] at linked
  generalize paintedEq : (Piece.paint (Document.linked prose))[place] = painted at linked
  obtain ⟨other, kind⟩ := painted
  obtain rfl : other = own := linked.char
  refine ⟨plain, kind, stroke, List.getElem?_eq_some_iff.mpr ⟨_, paintedEq⟩, linked, fun code => ?_⟩
  subst code
  exact isReturn_of_codeVeil (List.mem_of_getElem? stroke)

/-- A rim of display math, found in the text and in the masked text, is no code. -/
theorem plain_of_rims {prose : List Char} {place : Nat}
    (rim : ∃ char, prose[place]? = some char ∧ DisplayMath.IsRim char)
    (masked : ∃ char, (DisplayMath.masked (Document.linked prose))[place]? = some char ∧
      DisplayMath.IsRim char) :
    ∃ char, prose[place]? = some char ∧ DisplayMath.IsRim char ∧
      (codeVeil none prose)[place]? = some (char, true) := by
  obtain ⟨char, here, isRim⟩ := rim
  obtain ⟨plain, kind, code, painted, linked, solid⟩ := exists_at here
  refine ⟨char, here, isRim, ?_⟩
  cases plain with
  | true => exact code
  | false =>
      have frozen : kind ≠ .outside := by
        rcases linked.code rfl with rfl | rfl
        all_goals simp
      rw [DisplayMath.masked_eq, List.getElem?_map, painted] at masked
      obtain ⟨_, same, isRim⟩ := masked
      obtain rfl := Option.some.inj same
      exact absurd isRim (DisplayMath.not_isRim_mask frozen (solid rfl))

section Alike

variable {prose : List Char} {place : Nat}

theorem SeesAlike.plain_of_opening (alike : SeesAlike prose)
    (before : DisplayMath.covers (DisplayMath.spans prose) place = false)
    (after : DisplayMath.covers (DisplayMath.spans prose) (place + 1) = true) :
    ∃ char, prose[place + 1]? = some char ∧ DisplayMath.IsRim char ∧
      (codeVeil none prose)[place + 1]? = some (char, true) := by
  refine plain_of_rims (DisplayMath.isRim_of_opening before after) ?_
  rw [alike.spans] at before after
  exact DisplayMath.isRim_of_opening before after

theorem SeesAlike.plain_of_closing (alike : SeesAlike prose)
    (before : DisplayMath.covers (DisplayMath.spans prose) place = true)
    (after : DisplayMath.covers (DisplayMath.spans prose) (place + 1) = false) :
    ∃ char, prose[place]? = some char ∧ DisplayMath.IsRim char ∧
      (codeVeil none prose)[place]? = some (char, true) := by
  refine plain_of_rims (DisplayMath.isRim_of_closing before after) ?_
  rw [alike.spans] at before after
  exact DisplayMath.isRim_of_closing before after

theorem getElem_displayVeil {spans : List Span} (bound : place < (displayVeil spans prose).length)
    (inProse : place < prose.length) :
    (displayVeil spans prose)[place] = (prose[place], !DisplayMath.covers spans place) := by
  simp [displayVeil, DisplayMath.covers]

theorem length_codeVeil (before : Option Char) (text : List Char) :
    (codeVeil before text).length = text.length := by
  have lengths := congrArg List.length (text_codeVeil before text)
  rwa [Veiled.text, List.length_map] at lengths

theorem SeesAlike.seamless (alike : SeesAlike prose)
    (followed : prose.IsChain fun first second => first = '\r' → second = '\n') :
    ((displayVeil (DisplayMath.spans prose) prose).zip (codeVeil none prose)).IsChain Seamless := by
  rw [List.isChain_iff_getElem]
  intro place bound
  rw [List.length_zip, length_codeVeil, displayVeil, List.length_mapIdx, Nat.min_self] at bound
  rw [List.getElem_zip, List.getElem_zip, getElem_displayVeil _ (Nat.lt_of_succ_lt bound),
    getElem_displayVeil _ bound]
  have opens (shown : (!DisplayMath.covers (DisplayMath.spans prose) place) = true)
      (hidden : (!DisplayMath.covers (DisplayMath.spans prose) (place + 1)) = false) :=
    alike.plain_of_opening (by simpa using shown) (by simpa using hidden)
  refine ⟨⟨fun shown hidden => ?_, fun same => ?_⟩, fun shown hidden => ?_, fun hidden shown => ?_⟩
  · obtain ⟨char, here, rim, _⟩ := opens shown hidden
    obtain ⟨_, get⟩ := List.getElem?_eq_some_iff.mp here
    rw [get]
    rintro rfl
    exact absurd rim (by decide)
  · exact List.isChain_iff_getElem.mp followed place bound (congrArg Prod.fst same)
  · obtain ⟨char, _, _, code⟩ := opens shown hidden
    obtain ⟨_, get⟩ := List.getElem?_eq_some_iff.mp code
    rw [get]
  · obtain ⟨char, _, _, code⟩ := alike.plain_of_closing (by simpa using hidden) (by simpa using shown)
    obtain ⟨_, get⟩ := List.getElem?_eq_some_iff.mp code
    rw [get]

theorem SeesAlike.seen_eq (alike : SeesAlike prose)
    (followed : prose.IsChain fun first second => first = '\r' → second = '\n') :
    blankCode (blankSpans (DisplayMath.spans prose) 0 prose) = (sight prose).seen := by
  have textEq : (displayVeil (DisplayMath.spans prose) prose).text = prose := by
    refine List.ext_getElem? fun place => ?_
    rw [Veiled.text, displayVeil, List.getElem?_map, List.getElem?_mapIdx]
    cases prose[place]? <;> rfl
  have veiled : blankSpans (DisplayMath.spans prose) 0 prose =
      (displayVeil (DisplayMath.spans prose) prose).seen := by
    rw [blankSpans_eq, displayVeil]
    simp only [Nat.zero_add]
  have seamless := alike.seamless followed
  have whole := @seen_codeVeil_seen (displayVeil (DisplayMath.spans prose) prose) none
    (by rwa [textEq]) none
  rw [textEq] at whole
  rw [veiled, blankCode_eq, whole, sight]

theorem getElem_codeVeil {before : Option Char} {text : List Char}
    (bound : place < (codeVeil before text).length) (inText : place < text.length) :
    (codeVeil before text)[place].1 = text[place] := by
  have textEq := text_codeVeil before text
  have shown : (Veiled.text (codeVeil before text))[place]? = text[place]? := by rw [textEq]
  rw [Veiled.text, List.getElem?_map, List.getElem?_eq_getElem bound,
    List.getElem?_eq_getElem (by simpa [length_codeVeil] using bound)] at shown
  exact Option.some.inj shown

theorem length_sight (prose : List Char) : (sight prose).length = prose.length := by
  simp [sight, Veiled.both, displayVeil, length_codeVeil]

theorem getElem_sight (bound : place < (sight prose).length) (inProse : place < prose.length)
    (inCode : place < (codeVeil none prose).length) :
    (sight prose)[place] = (prose[place],
      !DisplayMath.covers (DisplayMath.spans prose) place && (codeVeil none prose)[place].2) := by
  simp only [sight, Veiled.both, List.getElem_zipWith, getElem_displayVeil _ inProse]

/-- What is hidden before a dollar that the review sees is no backslash. -/
theorem SeesAlike.unescaped (alike : SeesAlike prose) :
    (sight prose).IsChain fun first second =>
      first.2 = false → second = ('$', true) → first.1 ≠ '\\' := by
  rw [List.isChain_iff_getElem]
  intro place bound
  have inProse : place + 1 < prose.length := by rwa [← length_sight]
  have inCode : place + 1 < (codeVeil none prose).length := by rwa [length_codeVeil]
  rw [getElem_sight _ (Nat.lt_of_succ_lt inProse) (Nat.lt_of_succ_lt inCode),
    getElem_sight _ inProse inCode]
  intro hidden shown
  simp only [Prod.mk.injEq, Bool.and_eq_true, Bool.not_eq_true'] at shown
  cases covered : DisplayMath.covers (DisplayMath.spans prose) place with
  | true =>
      obtain ⟨char, here, rim, _⟩ := alike.plain_of_closing covered shown.2.1
      obtain ⟨_, get⟩ := List.getElem?_eq_some_iff.mp here
      rw [get]
      rintro rfl
      exact absurd rim (by decide)
  | false =>
      rw [covered] at hidden
      have ended := List.isChain_iff_getElem.mp (isChain_codeVeil none prose) place inCode
      rw [getElem_codeVeil _ (Nat.lt_of_succ_lt inProse)] at ended
      rw [ended (by simpa using hidden) shown.2.2]
      exact (by decide : '\x60' ≠ '\\')

theorem reclassify_eq (found : List Span) (place : Nat) (painted : Char × RegionKind) :
    DisplayMath.reclassify found place painted =
      (painted.1, if painted.2 = .outside ∧ DisplayMath.covers found place = true then .display
        else painted.2) := by
  simp only [DisplayMath.reclassify, DisplayMath.covers, List.any_eq_true, DisplayMath.contains_iff]
  split <;> rfl

theorem SeesAlike.shown_of_link (alike : SeesAlike prose)
    (followed : prose.IsChain fun first second => first = '\r' → second = '\n')
    (link : (Piece.paint (Document.linked prose))[place]? = some ('$', .link))
    (bound : place < (sight prose).length) : (sight prose)[place].2 = true := by
  have seen := alike.links place link
  rw [alike.seen_eq followed, Veiled.seen, List.getElem?_map, List.getElem?_eq_getElem bound] at seen
  generalize (sight prose)[place] = stroke at seen
  obtain ⟨char, shown⟩ := stroke
  cases shown with
  | true => rfl
  | false =>
      have glimpsed := Option.some.inj seen
      by_cases feed : char = '\n'
      · rw [feed] at glimpsed
        exact absurd glimpsed (by decide)
      · rw [Veiled.glimpse_hidden feed] at glimpsed
        exact absurd glimpsed (by decide)

theorem SeesAlike.counted (alike : SeesAlike prose)
    (followed : prose.IsChain fun first second => first = '\r' → second = '\n') :
    List.Forall₂ (fun seen counted => seen.1 = counted.1 ∧ (seen.1 = '$' → seen.2 = counted.2))
      (sight prose) (Painted.counted (Piece.paint (Document.proseRegions prose))) := by
  have linkedLength : (Piece.paint (Document.linked prose)).length = prose.length := by
    rw [← (List.forall₂_iff_get.mp (Document.isLinked_linked prose)).1, length_codeVeil]
  rw [Document.counted_proseRegions, ← alike.spans, List.forall₂_iff_get]
  refine ⟨by simp [Painted.counted, length_sight, linkedLength], fun place bound bound' => ?_⟩
  have inProse : place < prose.length := by rwa [← length_sight]
  have inCode : place < (codeVeil none prose).length := by rwa [length_codeVeil]
  obtain ⟨plain, kind, code, painted, linked, _⟩ := exists_at (List.getElem?_eq_getElem inProse)
  obtain ⟨_, codeEq⟩ := List.getElem?_eq_some_iff.mp code
  obtain ⟨_, paintedEq⟩ := List.getElem?_eq_some_iff.mp painted
  simp only [List.get_eq_getElem, getElem_sight _ inProse inCode, Painted.counted, List.getElem_map,
    List.getElem_mapIdx, codeEq, paintedEq, reclassify_eq, true_and]
  intro dollar
  rw [dollar] at painted linked
  cases kind with
  | link =>
      have seen := alike.shown_of_link followed painted bound
      rw [getElem_sight _ inProse inCode, codeEq] at seen
      exact seen
  | code =>
      cases plain with
      | true => exact absurd (linked.plain rfl) (by simp)
      | false => simp [RegionKind.isCounted]
  | outside =>
      cases plain with
      | true => cases DisplayMath.covers (DisplayMath.spans prose) place <;> rfl
      | false => exact absurd (linked.code rfl) (by simp)
  | display => exact absurd linked.frozen_or_outside (by simp)
  | inline => exact absurd linked.frozen_or_outside (by simp)

end Alike

end Review

end DollarMath
