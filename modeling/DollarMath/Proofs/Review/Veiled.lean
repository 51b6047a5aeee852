import DollarMath.Proofs.Conversion.Carved
import DollarMath.Proofs.Document.WithReturns
import DollarMath.Proofs.Lists
import DollarMath.Review

/-!
Texts of which a part is veiled by blanks. Code that is looked for behind a veil is the code of the
text itself, as long as the veil neither starts nor ends inside of code.
-/

namespace DollarMath

abbrev Veiled := List (Char × Bool)

namespace Veiled

def text (veiled : Veiled) : List Char :=
  veiled.map Prod.fst

def glimpse (stroke : Char × Bool) : Char :=
  if stroke.2 || stroke.1 == '\n' then stroke.1 else ' '

def seen (veiled : Veiled) : List Char :=
  veiled.map glimpse

def both (first second : Veiled) : Veiled :=
  List.zipWith (fun left right => (left.1, left.2 && right.2)) first second

@[simp] theorem text_nil : text [] = [] := rfl

@[simp] theorem text_cons (stroke : Char × Bool) (rest : Veiled) :
    text (stroke :: rest) = stroke.1 :: text rest := rfl

@[simp] theorem seen_nil : seen [] = [] := rfl

@[simp] theorem seen_cons (stroke : Char × Bool) (rest : Veiled) :
    seen (stroke :: rest) = glimpse stroke :: seen rest := rfl

@[simp] theorem glimpse_shown (char : Char) : glimpse (char, true) = char := rfl

@[simp] theorem text_append (first second : Veiled) :
    text (first ++ second) = text first ++ text second :=
  List.map_append

@[simp] theorem seen_append (first second : Veiled) :
    seen (first ++ second) = seen first ++ seen second :=
  List.map_append

@[simp] theorem both_cons (left right : Char × Bool) (first second : Veiled) :
    both (left :: first) (right :: second) = (left.1, left.2 && right.2) :: both first second := rfl

theorem both_append {first first' second second' : Veiled} (same : first.length = second.length) :
    both (first ++ first') (second ++ second') = both first second ++ both first' second' :=
  List.zipWith_append same

theorem both_map (text : List Char) (left right : Bool) :
    both (text.map (·, left)) (text.map (·, right)) = text.map (·, left && right) := by
  simp [both, List.zipWith_map, List.zipWith_self]

@[simp] theorem text_map (text : List Char) (shown : Bool) :
    Veiled.text (text.map (·, shown)) = text := by
  simp [Veiled.text, Function.comp_def]

@[simp] theorem seen_shown (text : List Char) : seen (text.map (·, true)) = text := by
  simp [seen, Function.comp_def]

theorem glimpse_hidden {char : Char} (other : char ≠ '\n') : glimpse (char, false) = ' ' := by
  simp [glimpse, other]

theorem seen_hidden {text : List Char} (onLine : '\n' ∉ text) :
    seen (text.map (·, false)) = List.replicate text.length ' ' := by
  induction text with
  | nil => rfl
  | cons char text ih =>
      have own : char ≠ '\n' := fun feed => onLine (by simp [feed])
      rw [List.map_cons, seen_cons, glimpse_hidden own,
        ih fun member => onLine (by simp [member])]
      rfl

end Veiled

namespace Veiled

structure IsClean (first second : Char × Bool) : Prop where
  opening : first.2 = true → second.2 = false → second.1 ≠ '\x60'
  returns : first = ('\r', false) → second.1 = '\n'

theorem eq_tick_of_glimpse {stroke : Char × Bool} (tick : glimpse stroke = '\x60') :
    stroke = ('\x60', true) := by
  obtain ⟨char, shown⟩ := stroke
  cases shown with
  | true => simpa using tick
  | false =>
      by_cases feed : char = '\n'
      · rw [feed] at tick
        exact absurd tick (by decide)
      · rw [glimpse_hidden feed] at tick
        exact absurd tick (by decide)

/-- What is seen between two backticks holds no return, not even behind the veil. -/
theorem not_isReturn_of_seen {middle others : Veiled} {close : Char × Bool}
    (clean : List.IsChain IsClean (middle ++ close :: others)) (ended : close.1 = '\x60')
    (body : ∀ char ∈ seen middle, (char != '\x60' && !Text.isReturn char) = true) :
    ∀ char ∈ text middle, Text.isReturn char = false := by
  induction middle with
  | nil => simp
  | cons stroke middle ih =>
      have own := body (glimpse stroke) (by simp)
      have later := ih clean.tail fun char member => body char (by simp [member])
      refine List.forall_mem_cons.mpr ⟨?_, later⟩
      obtain ⟨char, shown⟩ := stroke
      by_contra isReturn
      cases shown with
      | true => simp [isReturn] at own
      | false =>
          have notFeed : char ≠ '\n' := by
            rintro rfl
            exact absurd own (by decide)
          obtain rfl : char = '\r' := by simpa [Text.isReturn, notFeed] using isReturn
          cases middle with
          | nil =>
              have feed := (List.isChain_cons_cons.mp clean).1.returns rfl
              rw [ended] at feed
              exact absurd feed (by decide)
          | cons next middle =>
              have feed := (List.isChain_cons_cons.mp clean).1.returns rfl
              have free := later next.1 (by simp)
              rw [feed] at free
              exact absurd free (by decide)

/-- Text without returns that is seen to start like code holds the backtick that ends code. -/
theorem isSpan_of_first {middle : Veiled} {rest first more : List Char} (filled : middle ≠ [])
    (starts : ∀ stroke, middle.head? = some stroke → stroke.1 ≠ '\x60')
    (noReturn : ∀ char ∈ text middle, Text.isReturn char = false)
    (split : text middle ++ '\x60' :: rest = first ++ '\x60' :: more) (free : '\x60' ∉ first) :
    InlineCode.IsSpan ('\x60' :: (first ++ ['\x60'])) := by
  refine ⟨first, rfl, ?_, fun char member => ?_⟩
  · rintro rfl
    obtain ⟨next, middle, rfl⟩ := List.exists_cons_of_ne_nil filled
    rw [text_cons, List.cons_append, List.nil_append, List.cons.injEq] at split
    exact starts next rfl split.1
  · have other : char ≠ '\x60' := by
      rintro rfl
      exact free member
    have inMiddle : char ∈ text middle := by
      rcases append_eq_append_cons split with ⟨others, whole, _⟩ | ⟨others, whole, ends⟩
      · rw [whole]
        simp [member]
      · cases others with
        | nil => rwa [whole, List.append_nil] at member
        | cons next others =>
            rw [List.cons_append, List.cons.injEq] at ends
            exact absurd (by simp [whole, ← ends.1]) free
    simp [other, noReturn char inMiddle]

/-- Behind a veil no code comes to light that is not code of the text. -/
theorem span_seen_eq_none {veiled : Veiled} {before : Option Char} (clean : veiled.IsChain IsClean)
    (missed : InlineCode.span before veiled.text = none) (before' : Option Char) :
    InlineCode.span before' veiled.seen = none := by
  by_contra found
  obtain ⟨_, ⟨body, rfl, filled, own⟩, left, whole⟩ :=
    (InlineCode.finds_span.isSome_iff before' _).mp (Option.isSome_iff_ne_none.mpr found)
  have shape : seen veiled = '\x60' :: (body ++ '\x60' :: left) := by simpa using whole.symm
  obtain ⟨opening, rest, rfl, openingEq, restEq⟩ := List.map_eq_cons_iff.mp shape
  obtain ⟨middle, tail, rfl, middleEq, tailEq⟩ := List.map_eq_append_iff.mp restEq
  obtain ⟨closing, others, rfl, closingEq, _⟩ := List.map_eq_cons_iff.mp tailEq
  obtain rfl := eq_tick_of_glimpse openingEq
  obtain rfl := eq_tick_of_glimpse closingEq
  change seen middle = body at middleEq
  have noReturn := not_isReturn_of_seen clean.tail rfl (by rwa [middleEq])
  have filledMiddle : middle ≠ [] := by
    rintro rfl
    exact filled middleEq.symm
  have starts : ∀ stroke, middle.head? = some stroke → stroke.1 ≠ '\x60' := by
    intro stroke head
    obtain ⟨others, rfl⟩ := List.head?_eq_some_iff.mp head
    obtain ⟨char, shown⟩ := stroke
    cases shown with
    | true =>
        rintro rfl
        exact absurd (own '\x60' (by simp [← middleEq])) (by decide)
    | false => exact (List.isChain_cons_cons.mp clean).1.opening rfl rfl
  have tick : '\x60' ∈ text middle ++ '\x60' :: text others := by simp
  obtain ⟨first, more, split, free⟩ := List.eq_append_cons_of_mem tick
  have isSpan := isSpan_of_first filledMiddle starts noReturn split free
  have isSpan := (InlineCode.finds_span.isSome_iff before
    (text (('\x60', true) :: (middle ++ ('\x60', true) :: others)))).mpr
      ⟨_, isSpan, more, by simpa using split.symm⟩
  rw [missed] at isSpan
  exact absurd isSpan (by simp)

end Veiled

namespace Review

def codeVeil (before : Option Char) (text : List Char) : Veiled :=
  (Text.scan InlineCode.span before text).flatMap fun
    | .gap char => [(char, true)]
    | .hit _ taken _ _ => taken.map (·, false)

def displayVeil (spans : List Span) (text : List Char) : Veiled :=
  text.mapIdx fun place char => (char, !spans.any (·.contains place))

theorem blankSpans_eq (spans : List Span) (offset : Nat) (text : List Char) :
    blankSpans spans offset text =
      Veiled.seen (text.mapIdx fun place char => (char, !spans.any (·.contains (offset + place)))) := by
  induction text generalizing offset with
  | nil => rfl
  | cons char text ih =>
      rw [blankSpans, ih, List.mapIdx_cons, Veiled.seen_cons, Veiled.glimpse]
      congr 1
      · rw [Nat.add_zero]
        cases spans.any (·.contains offset) with
        | true => by_cases feed : char = '\n' <;> simp [feed]
        | false => simp
      · simp [Nat.add_assoc, Nat.add_comm 1]

theorem codeVeil_of_none {before : Option Char} {char : Char} {rest : List Char}
    (missed : InlineCode.span before (char :: rest) = none) :
    codeVeil before (char :: rest) = (char, true) :: codeVeil (some char) rest := by
  rw [codeVeil, Text.scan_of_none missed]
  rfl

theorem codeVeil_of_isSpan {taken : List Char} (isSpan : InlineCode.IsSpan taken)
    (before : Option Char) (left : List Char) :
    codeVeil before (taken ++ left) = taken.map (·, false) ++ codeVeil taken.getLast? left := by
  rw [codeVeil, Text.scan_of_some (InlineCode.finds_span.nonempty _ isSpan)
    (InlineCode.span_of_isSpan isSpan before left)]
  rfl

/-- Induction along the code of a text: past a character that starts no code, or past code. -/
theorem codeVeil_induction {motive : Option Char → List Char → Prop}
    (nil : ∀ before, motive before [])
    (gap : ∀ before char rest, InlineCode.span before (char :: rest) = none →
      motive (some char) rest → motive before (char :: rest))
    (code : ∀ before taken left, InlineCode.IsSpan taken →
      motive taken.getLast? left → motive before (taken ++ left))
    (before : Option Char) (text : List Char) : motive before text := by
  refine InlineCode.keeps_span.takes.search nil gap (fun before taken left value _ found ih => ?_)
    before text
  obtain ⟨other, rest, whole, isSpan, size⟩ := InlineCode.exists_isSpan found
  obtain ⟨rfl, rfl⟩ := List.append_inj whole size
  exact code before taken left isSpan ih

theorem noFeed_of_isSpan {taken : List Char} (isSpan : InlineCode.IsSpan taken) : '\n' ∉ taken :=
  fun feed => absurd (InlineCode.finds_span.unbroken _ isSpan '\n' feed) (by decide)

theorem codeVeil_blanks (before : Option Char) (count : Nat) (rest : List Char) :
    ∃ before', codeVeil before (List.replicate count ' ' ++ rest) =
      (List.replicate count ' ').map (·, true) ++ codeVeil before' rest := by
  induction count generalizing before with
  | zero => exact ⟨before, rfl⟩
  | succ count ih =>
      obtain ⟨before', later⟩ := ih (some ' ')
      refine ⟨before', ?_⟩
      rw [List.replicate_succ, List.cons_append, codeVeil_of_none rfl, later]
      rfl

theorem text_codeVeil (before : Option Char) (text : List Char) :
    (codeVeil before text).text = text := by
  refine codeVeil_induction (motive := fun before text => (codeVeil before text).text = text)
    (fun _ => by simp [codeVeil, Text.scan]) ?_ ?_ before text
  · intro before char rest missed ih
    rw [codeVeil_of_none missed, Veiled.text_cons, ih]
  · intro before taken left isSpan ih
    rw [codeVeil_of_isSpan isSpan, Veiled.text_append, Veiled.text_map, ih]

theorem isReturn_of_codeVeil {before : Option Char} {text : List Char} {char : Char}
    (member : (char, false) ∈ codeVeil before text) : Text.isReturn char = false := by
  refine codeVeil_induction (motive := fun before text =>
    (char, false) ∈ codeVeil before text → Text.isReturn char = false) ?_ ?_ ?_ before text member
  · intro before member
    simp [codeVeil, Text.scan] at member
  · intro before other rest missed ih member
    rw [codeVeil_of_none missed] at member
    exact ih (by simpa using member)
  · intro before taken left isSpan ih member
    rw [codeVeil_of_isSpan isSpan, List.mem_append] at member
    rcases member with own | later
    · exact InlineCode.finds_span.unbroken _ isSpan char (by simpa using own)
    · exact ih later

theorem isChain_codeVeil (before : Option Char) (text : List Char) :
    (codeVeil before text).IsChain fun first second =>
      first.2 = false → second.2 = true → first.1 = '\x60' := by
  refine codeVeil_induction (motive := fun before text => (codeVeil before text).IsChain
    fun first second => first.2 = false → second.2 = true → first.1 = '\x60') ?_ ?_ ?_ before text
  · intro before
    simp [codeVeil, Text.scan]
  · intro before char rest missed ih
    rw [codeVeil_of_none missed]
    exact List.isChain_cons.mpr ⟨fun _ _ hidden => absurd hidden (by simp), ih⟩
  · intro before taken left isSpan ih
    rw [codeVeil_of_isSpan isSpan, List.isChain_append]
    refine ⟨?_, ih, ?_⟩
    · rw [List.isChain_map]
      exact List.isChain_iff_getElem.mpr fun _ _ _ shown => absurd shown (by simp)
    · obtain ⟨body, rfl, _⟩ := isSpan
      intro last isLast _ _ _ _
      rw [← List.cons_append, List.map_append] at isLast
      exact congrArg Prod.fst (Option.some.inj (List.getLast?_concat.symm.trans isLast)).symm

theorem blankCode_eq (text : List Char) : blankCode text = (codeVeil none text).seen := by
  refine codeVeil_induction (motive := fun before text =>
    ((Text.scan InlineCode.span before text).flatMap fun
      | .gap char => [char]
      | .hit _ taken _ _ => List.replicate taken.length ' ') = (codeVeil before text).seen)
    (fun _ => by simp [codeVeil, Text.scan]) ?_ ?_ none text
  · intro before char rest missed ih
    rw [codeVeil_of_none missed, Text.scan_of_none missed, List.flatMap_cons, ih]
    rfl
  · intro before taken left isSpan ih
    have found := InlineCode.span_of_isSpan isSpan before left
    rw [codeVeil_of_isSpan isSpan,
      Text.scan_of_some (InlineCode.finds_span.nonempty _ isSpan) found, List.flatMap_cons, ih,
      Veiled.seen_append, Veiled.seen_hidden (noFeed_of_isSpan isSpan)]

/-- Neighbouring characters of a text, each with whether a veil shows it, and once more with whether
it is no code. The veil neither starts nor ends inside of code. -/
structure Seamless (first second : (Char × Bool) × (Char × Bool)) : Prop where
  clean : Veiled.IsClean first.1 second.1
  opening : first.1.2 = true → second.1.2 = false → second.2.2 = true
  closing : first.1.2 = false → second.1.2 = true → first.2.2 = true

/-- A veil over code shows all of it or nothing. -/
theorem exists_shown_of_seamless {veiled : Veiled}
    (seamless : (veiled.zip (veiled.text.map (·, false))).IsChain Seamless) :
    ∃ shown, veiled = veiled.text.map (·, shown) := by
  induction veiled with
  | nil => exact ⟨true, rfl⟩
  | cons stroke rest ih =>
      obtain ⟨char, shown⟩ := stroke
      obtain ⟨other, restEq⟩ := ih seamless.tail
      cases rest with
      | nil => exact ⟨shown, rfl⟩
      | cons next rest =>
          refine ⟨shown, ?_⟩
          obtain ⟨nextChar, nextShown⟩ := next
          have own := (List.isChain_cons_cons.mp seamless).1
          have same : shown = nextShown := by
            cases shown with
            | true =>
                cases nextShown with
                | true => rfl
                | false => exact absurd (own.opening rfl rfl) (by simp)
            | false =>
                cases nextShown with
                | true => exact absurd (own.closing rfl rfl) (by simp)
                | false => rfl
          rw [Veiled.text_cons, List.map_cons, List.cons.injEq, Prod.mk.injEq] at restEq
          rw [same, restEq.1.2, Veiled.text_cons, Veiled.text_cons, List.map_cons, List.map_cons,
            ← restEq.2]

theorem isChain_clean (before : Option Char) {veiled : Veiled}
    (seamless : (veiled.zip (codeVeil before veiled.text)).IsChain Seamless) :
    veiled.IsChain Veiled.IsClean := by
  have whole : (veiled.zip (codeVeil before veiled.text)).map Prod.fst = veiled := by
    refine List.map_fst_zip (Nat.le_of_eq ?_)
    have lengths := congrArg List.length (text_codeVeil before veiled.text)
    rw [Veiled.text, Veiled.text, List.length_map, List.length_map] at lengths
    exact lengths.symm
  rw [← whole]
  exact (List.isChain_map _).mpr (seamless.imp fun _ _ own => own.clean)

/-- Code that is looked for behind a veil is the code of the text that the veil shows. -/
theorem seen_codeVeil_seen {veiled : Veiled} {before : Option Char}
    (seamless : (veiled.zip (codeVeil before veiled.text)).IsChain Seamless)
    (before' : Option Char) :
    (codeVeil before' veiled.seen).seen = (veiled.both (codeVeil before veiled.text)).seen := by
  generalize textEq : veiled.text = text at seamless ⊢
  refine codeVeil_induction (motive := fun before text => ∀ (veiled : Veiled) before',
    veiled.text = text → (veiled.zip (codeVeil before text)).IsChain Seamless →
      (codeVeil before' veiled.seen).seen = (veiled.both (codeVeil before text)).seen)
    ?_ ?_ ?_ before text veiled before' textEq seamless
  · intro before veiled before' textEq _
    obtain rfl := List.map_eq_nil_iff.mp textEq
    simp [codeVeil, Text.scan, Veiled.both]
  · intro before char rest missed ih veiled before' textEq seamless
    obtain ⟨stroke, others, rfl, rfl, rfl⟩ := List.map_eq_cons_iff.mp textEq
    have clean := isChain_clean before seamless
    rw [codeVeil_of_none missed, List.zip_cons_cons] at seamless
    have missed' := Veiled.span_seen_eq_none clean missed before'
    have later := ih others (some (Veiled.glimpse stroke)) rfl seamless.tail
    rw [Veiled.seen_cons] at missed' ⊢
    rw [codeVeil_of_none missed', codeVeil_of_none missed, Veiled.seen_cons, later,
      Veiled.both_cons, Veiled.seen_cons, Bool.and_true, Veiled.glimpse_shown]
  · intro before taken left isSpan ih veiled before' textEq seamless
    obtain ⟨first, second, rfl, firstEq, rfl⟩ := List.map_eq_append_iff.mp textEq
    change Veiled.text first = taken at firstEq
    subst firstEq
    rw [codeVeil_of_isSpan isSpan, List.zip_append (by simp [Veiled.text]), List.isChain_append]
      at seamless
    obtain ⟨own, below, _⟩ := seamless
    obtain ⟨shown, whole⟩ := exists_shown_of_seamless own
    have later (before : Option Char) := ih second before rfl below
    generalize Veiled.text first = taken at isSpan whole later
    subst whole
    have hidden := Veiled.seen_hidden (noFeed_of_isSpan isSpan)
    rw [codeVeil_of_isSpan isSpan, Veiled.both_append (by simp), Veiled.both_map, Bool.and_false,
      Veiled.seen_append, Veiled.seen_append, hidden]
    cases shown with
    | true =>
        rw [Veiled.seen_shown, codeVeil_of_isSpan isSpan, Veiled.seen_append, hidden,
          later]
    | false =>
        obtain ⟨before'', blanks⟩ := codeVeil_blanks before' taken.length (Veiled.seen second)
        rw [hidden, blanks, Veiled.seen_append, Veiled.seen_shown, later]

end Review

end DollarMath
