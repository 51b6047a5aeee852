import DollarMath.Conversion.BareTokens
import DollarMath.Conversion.Delimiters
import DollarMath.Conversion.Environments
import DollarMath.Proofs.Document.Fences
import DollarMath.Proofs.Region.Feeds

/-!
Revisions look at the characters next to a text. Which of the characters that a fence is made of
stands there makes no difference to any of them.
-/

namespace DollarMath

def Alike (one other : Option Char) : Prop :=
  one = other ∨ (∃ char, one = some char ∧ Fence.isFenceChar char = true) ∧
    ∃ char, other = some char ∧ Fence.isFenceChar char = true

namespace Alike

variable {one other : Option Char}

theorem refl (char : Option Char) : Alike char char :=
  .inl rfl

theorem or (alike : Alike one other) (first : Option Char) :
    Alike (first.or one) (first.or other) := by
  cases first with
  | none => simpa using alike
  | some char => exact .inl rfl

theorem any (alike : Alike one other) {test : Char → Bool}
    (same : ∀ char, Fence.isFenceChar char = true → test char = true) :
    one.any test = other.any test := by
  rcases alike with rfl | ⟨⟨first, rfl, firstFence⟩, second, rfl, secondFence⟩
  · rfl
  · simp [same first firstFence, same second secondFence]

theorem eq_some (alike : Alike one other) {char : Char} (free : Fence.isFenceChar char = false) :
    (one == some char) = (other == some char) := by
  have differ {fence : Char} (isFence : Fence.isFenceChar fence = true) : fence ≠ char := by
    rintro rfl
    rw [free] at isFence
    exact absurd isFence (by decide)
  rcases alike with rfl | ⟨⟨first, rfl, firstFence⟩, second, rfl, secondFence⟩
  · rfl
  · simp [differ firstFence, differ secondFence]

theorem inLine (alike : Alike one other) :
    one.any (· != '\n') = other.any (· != '\n') := by
  refine alike.any fun char fence => ?_
  rw [bne_iff_ne]
  rintro rfl
  exact absurd fence (by decide)

theorem goesOn (alike : Alike one other) :
    (one.any fun char => !Text.isReturn char) = other.any fun char => !Text.isReturn char := by
  refine alike.any fun char fence => ?_
  rw [Text.not_isReturn_of_not_isLineBreak (Fence.not_isLineBreak_of_isFenceChar fence)]
  rfl

theorem dollar (alike : Alike one other) : (one == some '$') = (other == some '$') :=
  alike.eq_some (by decide)

end Alike

def Build.IsSteady {α : Type} (build : Build α) : Prop :=
  ∀ previous previous' taken value next next', Alike previous previous' → Alike next next' →
    build previous taken value next = build previous' taken value next'

def Revision.IsSteady (revise : Revision) : Prop :=
  ∀ before before' text after after', Alike before before' → Alike after after' →
    revise before text after = revise before' text after'

theorem Build.IsSteady.substitution {α : Type} {build : Build α} (steady : build.IsSteady)
    (recognize : Text.Recognizer α) : Revision.IsSteady (substitution recognize build) := by
  intro before before' text after after' alikeBefore alikeAfter
  rw [substitution_eq, substitution_eq]
  refine List.flatMap_congr fun found _ => ?_
  cases found with
  | gap char => rfl
  | hit previous taken value next =>
      simp only [place, steady _ _ taken value _ _ (alikeBefore.or previous) (alikeAfter.or next)]

theorem displayBlock_congr {newline indent body : List Char}
    {previous previous' next next' : Option Char} (above : Alike previous previous')
    (below : Alike next next') :
    displayBlock newline indent body previous next =
      displayBlock newline indent body previous' next' := by
  unfold displayBlock
  dsimp only
  rw [above.inLine, below.goesOn]

namespace Delimiters

theorem steady_toDisplay (newline : List Char) : Build.IsSteady (toDisplay newline) := by
  intro previous previous' taken inside next next' above below
  unfold toDisplay
  dsimp only
  rw [displayBlock_congr above below]

theorem steady_toDisplayAtLine (newline : List Char) :
    Build.IsSteady (toDisplayAtLine newline) := by
  intro previous previous' taken inside next next' above below
  unfold toDisplayAtLine
  rw [above.inLine, steady_toDisplay newline _ _ taken inside _ _ above below]

theorem steady_toInline : Build.IsSteady toInline :=
  fun _ _ _ _ _ _ _ _ => rfl

end Delimiters

theorem Environments.steady_toDisplay (newline : List Char) :
    Build.IsSteady (toDisplay newline) := by
  intro previous previous' taken indent next next' above below
  unfold toDisplay
  dsimp only
  rw [above.inLine, displayBlock_congr above below, displayBlock_congr (.refl _) below]

namespace BareTokens

theorem steady_toDegree : Build.IsSteady toDegree := by
  intro previous previous' taken number next next' above below
  unfold toDegree touchesDollar
  rw [above.dollar, below.dollar]

theorem steady_toInline : Build.IsSteady toInline := by
  intro previous previous' taken value next next' above below
  unfold toInline touchesDollar
  rw [above.dollar, below.dollar]

theorem rootOrFraction_congr {outer outer' after after' : Option Char} (above : Alike outer outer')
    (below : Alike after after') : rootOrFraction outer after = rootOrFraction outer' after' := by
  funext before text
  unfold rootOrFraction
  split
  · rfl
  · refine Option.bind_congr fun rest _ => ?_
    rw [(above.or before).dollar, (below.or rest.head?).dollar]

theorem steady_wrapMacros : Revision.IsSteady wrapMacros := by
  intro before before' text after after' above below
  have constant : Build.IsSteady fun _ (taken : List Char) (_ : Unit) _ =>
      some [Region.dollars taken] := fun _ _ _ _ _ _ _ _ => rfl
  unfold wrapMacros
  rw [rootOrFraction_congr above below, constant.substitution _ _ _ _ _ _ above below]

end BareTokens

section revising

variable {revise : Revision} {skip : Region → Bool} {before before' after after' : Option Char}

theorem reviseAround_congr (steady : revise.IsSteady) (above : Alike before before')
    (below : Alike after after') (offset : Nat) (text : List Char) (spans : List Span) :
    reviseAround revise after before offset text spans =
      reviseAround revise after' before' offset text spans := by
  induction spans generalizing before before' offset text with
  | nil =>
      simp only [reviseAround]
      rw [steady _ _ text _ _ above below]
  | cons span spans ih =>
      simp only [reviseAround]
      rw [steady _ _ _ _ _ above (.refl _), ih ((above.or _).or _)]

theorem reviseUpTo_congr (steady : revise.IsSteady) (above : Alike before before')
    (below : Alike after after') {regions : List Region} {held held' : List (List Span)}
    (same : held.take regions.length = held'.take regions.length) :
    reviseUpTo revise skip after before regions held =
      reviseUpTo revise skip after' before' regions held' := by
  induction regions generalizing before before' held held' with
  | nil => rfl
  | cons region regions ih =>
      obtain ⟨own, later⟩ : held.headD [] = held'.headD [] ∧
          held.tail.take regions.length = held'.tail.take regions.length := by
        cases held with
        | nil => cases held' <;> simp_all
        | cons first held => cases held' <;> simp_all
      rw [reviseUpTo, reviseUpTo, own, ih (.refl _) later,
        reviseAround_congr steady above (below.or _)]

end revising

namespace BareTokens

theorem passesFeed_degree : Revision.PassesFeed (substitution degree toDegree) := by
  refine passesFeed_substitution (fun rest => ?_) fun text => rfl
  simp [degree, number?, Text.isDecimal]

theorem passesFeed_wrapMacros : Revision.PassesFeed wrapMacros := by
  intro before text after
  unfold wrapMacros
  rw [@substitution_feed _ _ (rootOrFraction (some '\n') after)]
  · cases text with
    | nil => simp [substitution, Text.scan]
    | cons char rest => rfl
  · intro rest
    simp [rootOrFraction, afterMacro?]
  · intro text
    rfl
  · intro char text
    rfl

theorem passesFeed_script : Revision.PassesFeed (substitution script toInline) := by
  refine passesFeed_substitution (fun rest => ?_) fun text => ?_
  · cases rest with
    | nil => rfl
    | cons mark rest => simp [script]
  · rcases text with _ | ⟨letter, _ | ⟨mark, rest⟩⟩
    all_goals rfl

end BareTokens

end DollarMath
