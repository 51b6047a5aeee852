import DollarMath.Proofs.Conversion.Passes
import DollarMath.Proofs.Region.HeldBack

/-!
Where bare tokens are wrapped. Each of the three passes replaces tokens that stand apart from
dollars, and the three together replace tokens of the document they started from, since what one
pass wraps is frozen for the next and what it leaves is text of that document.
-/

namespace DollarMath.BareTokens

def Apart : Replacement :=
  fun before text regions after => Stage.Replaces .bareTokens before text regions after ∧
    before ≠ some '$' ∧ after ≠ some '$'

theorem wraps_apart : Wraps Apart := by
  rintro before text regions after ⟨replaced, _⟩
  cases replaced with
  | degree => exact ⟨_, rfl⟩
  | token => exact ⟨_, rfl⟩

theorem follows_of_touchesDollar {α : Type} {recognize : Text.Recognizer α} {build : Build α}
    (substitutes : Substitutes recognize build (Stage.Replaces .bareTokens))
    (apart : ∀ before taken value after regions, build before taken value after = some regions →
      touchesDollar before after = false) :
    (substitution recognize build).Follows Apart := by
  refine follows_of_substitutes (substitutes.strengthen ?_)
  intro previous text size value before after regions _ built replaced
  have free := apart _ _ _ _ _ built
  simp only [touchesDollar, Bool.or_eq_false_iff, beq_eq_false_iff_ne] at free
  exact ⟨replaced, free⟩

theorem follows_degree : (substitution degree toDegree).Follows Apart := by
  refine follows_of_touchesDollar substitutes_degree fun before taken number after regions built => ?_
  unfold toDegree at built
  split at built
  next => simp at built
  next free => simpa using free

theorem follows_script : (substitution script toInline).Follows Apart := by
  refine follows_of_touchesDollar substitutes_script fun before taken value after regions built => ?_
  unfold toInline at built
  split at built
  next => simp at built
  next free => simpa using free

theorem follows_wrapMacros : Revision.Follows wrapMacros Apart := by
  intro before text after
  refine SubstitutesBetween.revised (fun previous text size value found => ?_) text
  obtain ⟨inside, left, textEq, sizeEq, apart⟩ := rootOrFraction_eq_some found
  refine ⟨'\\' :: inside ++ ['}'], left, textEq, by simp [sizeEq], by simp, ?_⟩
  intro regions built
  simp only [Option.some.injEq] at built
  subst built
  exact ⟨.token (.command (isCommand_between inside)), apart⟩

def EndsPlainly (text : List Char) : Prop :=
  ∃ last, text.getLast? = some last ∧ (last.isAlphanum = true ∨ last = '}')

theorem EndsPlainly.ne {text : List Char} (plain : EndsPlainly text) (char : Char)
    (other : char.isAlphanum = false ∧ char ≠ '}') : text.getLast? ≠ some char := by
  obtain ⟨last, lastEq, own⟩ := plain
  rw [lastEq]
  rintro ⟨⟩
  rcases own with alphanumeric | brace
  · simp [other.1] at alphanumeric
  · exact other.2 brace

structure IsSwap (text body : List Char) : Prop where
  first : ∃ char, text.head? = some char ∧ char ≠ '$'
  last : EndsPlainly text
  bodyLast : EndsPlainly body
  same : body = text ∨ ∀ char ∈ text ++ body, char ≠ '$' ∧ char ≠ '\n'

theorem isSwap_degree {digit : Char} {others sign : List Char}
    (decimal : Text.isDecimal digit = true)
    (signs : sign = ['^', '\\', 'c', 'i', 'r', 'c'] ∨ sign = degreeSign)
    (digits : ∀ char ∈ others, Text.isDecimal char = true ∨ char = '.') :
    IsSwap (digit :: others ++ sign) (digit :: others ++ degreeSign) := by
  have ofDecimal {char : Char} (own : Text.isDecimal char = true) :
      char ≠ '$' ∧ char ≠ '\n' := by
    constructor
    · rintro rfl
      exact absurd own (by decide)
    · rintro rfl
      exact absurd own (by decide)
  have number : ∀ char ∈ digit :: others, char ≠ '$' ∧ char ≠ '\n' := by
    intro char member
    rcases List.mem_cons.mp member with rfl | inOthers
    · exact ofDecimal decimal
    · rcases digits char inOthers with own | rfl
      · exact ofDecimal own
      · decide
  have plainDegree : ∀ char ∈ degreeSign, char ≠ '$' ∧ char ≠ '\n' := by simp [degreeSign]
  have plainSign : ∀ char ∈ sign, char ≠ '$' ∧ char ≠ '\n' := by
    rcases signs with rfl | rfl
    · simp
    · exact plainDegree
  have ends : EndsPlainly (digit :: others ++ sign) := by
    rcases signs with rfl | rfl
    · exact ⟨'c', List.getLast?_append_of_ne_nil _ (by simp), .inl (by decide)⟩
    · exact ⟨'}', List.getLast?_append_of_ne_nil _ (by simp [degreeSign]), .inr rfl⟩
  refine ⟨⟨digit, rfl, (ofDecimal decimal).1⟩, ends,
    ⟨'}', List.getLast?_append_of_ne_nil _ (by simp [degreeSign]), .inr rfl⟩,
    .inr fun char member => ?_⟩
  rw [List.mem_append, List.mem_append, List.mem_append] at member
  rcases member with (inNumber | inSign) | (inNumber | inDegree)
  · exact number char inNumber
  · exact plainSign char inSign
  · exact number char inNumber
  · exact plainDegree char inDegree

theorem isSwap_self {text : List Char} (token : IsToken text) : IsSwap text text := by
  cases token with
  | command command =>
      have ends : EndsPlainly text := ⟨'}', command.last, .inr rfl⟩
      exact ⟨⟨'\\', command.first, by decide⟩, ends, ends, .inl rfl⟩
  | @script letter mark inside last alphabetic _ ends =>
      have plain : EndsPlainly (letter :: mark :: inside ++ [last]) :=
        ⟨last, List.getLast?_concat, ends⟩
      refine ⟨⟨letter, rfl, ?_⟩, plain, plain, .inl rfl⟩
      rintro rfl
      exact absurd alphabetic (by decide)

theorem isSwap_of_replaces {before after : Option Char} {text body : List Char}
    (replaced : Stage.Replaces .bareTokens before text [Region.dollars body] after) :
    IsSwap text body := by
  generalize regionsEq : [Region.dollars body] = regions at replaced
  have bodyEq {other : List Char} (same : [Region.dollars body] = [Region.dollars other]) :
      body = other := by
    simpa [Region.dollars] using same
  cases replaced with
  | degree decimal signs digits =>
      rw [bodyEq regionsEq]
      exact isSwap_degree decimal signs digits
  | token token =>
      rw [bodyEq regionsEq]
      exact isSwap_self token

theorem IsSwap.filled {text body : List Char} (swap : IsSwap text body) : text ≠ [] := by
  rintro rfl
  obtain ⟨char, isFirst, _⟩ := swap.first
  simp at isFirst

theorem IsSwap.count_feed {text body : List Char} (swap : IsSwap text body) :
    body.count '\n' = text.count '\n' := by
  rcases swap.same with rfl | free
  · rfl
  · have noFeeds {part : List Char} (sub : part ⊆ text ++ body) : part.count '\n' = 0 :=
      List.count_eq_zero_of_not_mem fun member => (free _ (sub member)).2 rfl
    rw [noFeeds (List.subset_append_right _ _), noFeeds (List.subset_append_left _ _)]

theorem reworks_pass {certain : Prop} {revise : Revision} (follows : revise.Follows Apart)
    {regions : List Region} (nonempty : certain → ∀ region ∈ regions, region.text ≠ []) :
    Reworks (Place.Obeys Apart certain (isOnStrayLine regions)) [] [] (Piece.paint regions)
      (Piece.paint (pass revise regions)) :=
  reworks_reviseOutside follows wraps_apart nonempty

theorem isFused_pass (revise : Revision) (regions : List Region) :
    Piece.IsFused (pass revise regions) :=
  Piece.isFused_fuse _

structure IsWrapping (apart : Prop) (place : Place) : Prop where
  replaces : Stage.Replaces .bareTokens place.before.getLast? place.text
    [Region.dollars place.body] place.after.head?
  apart : apart → place.before.getLast? ≠ some '$' ∧ place.after.head? ≠ some '$'

theorem replaces_anywhere {before before' after after' : Option Char} {text : List Char}
    {regions : List Region} (replaced : Stage.Replaces .bareTokens before text regions after) :
    Stage.Replaces .bareTokens before' text regions after' := by
  cases replaced with
  | degree decimal signs digits => exact .degree decimal signs digits
  | token token => exact .token token

theorem IsWrapping.of_obeys {certain : Prop} {isHeld : List Char → Bool} {place : Place}
    (obeys : place.Obeys Apart certain isHeld) : IsWrapping certain place := by
  obtain ⟨before, after, ⟨replaced, apart⟩, seen⟩ := obeys.replaced
  refine ⟨replaces_anywhere replaced, fun known => ?_⟩
  obtain ⟨rfl, rfl⟩ := seen known
  exact apart

theorem IsWrapping.stable {apart : Prop} {place : Place} {pre post : List Char}
    (before : SeenAs pre.getLast? place.before.getLast?)
    (after : SeenAs post.head? place.after.head?) (wrapping : IsWrapping apart place) :
    IsWrapping apart ⟨pre, place.text, place.body, post⟩ := by
  refine ⟨replaces_anywhere wrapping.replaces, fun known => ?_⟩
  obtain ⟨left, right⟩ := wrapping.apart known
  constructor
  · rw [before.resolve_left left]
    exact left
  · rw [after.resolve_left right]
    exact right

theorem reworks_wrap {apart : Prop} {regions : List Region}
    (nonempty : apart → ∀ region ∈ regions, region.text ≠ []) :
    Reworks (IsWrapping apart) [] [] (Piece.paint regions) (Piece.paint (wrap regions)) := by
  have step {revise : Revision} (follows : revise.Follows Apart) {regions : List Region}
      (nonempty : apart → ∀ region ∈ regions, region.text ≠ []) :
      Reworks (IsWrapping apart) [] [] (Piece.paint regions) (Piece.paint (pass revise regions)) :=
    (reworks_pass follows nonempty).mono fun _ _ _ _ _ _ => .of_obeys
  have filled (place : Place) (wrapping : IsWrapping apart place) : place.text ≠ [] :=
    (isSwap_of_replaces wrapping.replaces).filled
  have both {old middle new : Painted} := @Reworks.trans (IsWrapping apart) [] [] [] [] old middle new
    filled (fun _ _ _ => .stable) (.inr rfl) (.inr rfl)
  have degrees := step follows_degree nonempty
  exact both (both degrees (step follows_wrapMacros fun _ => (isFused_pass _ _).nonempty))
    (step follows_script fun _ => (isFused_pass _ _).nonempty)

end DollarMath.BareTokens
