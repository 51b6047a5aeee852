import DollarMath.Proofs.Conversion.TokenPlaces

/-!
The dollars that wrapping bare tokens adds: how many are counted on each line afterwards, and how
often two of them come to stand side by side.
-/

namespace DollarMath

def tally (counts : Nat → Option Char → Char → Bool) :
    (line : Nat) → (before : Option Char) → List Char → Nat
  | _, _, [] => 0
  | line, before, char :: rest =>
    (if counts line before char then 1 else 0) +
      tally counts (if char = '\n' then line + 1 else line) (some char) rest

section Tally

variable {counts : Nat → Option Char → Char → Bool}

@[simp] theorem tally_append (line : Nat) (before : Option Char) (first second : List Char) :
    tally counts line before (first ++ second) = tally counts line before first +
      tally counts (line + first.count '\n') (Text.lastOr before first) second := by
  induction first generalizing line before with
  | nil => simp [tally]
  | cons char first ih =>
      rw [List.cons_append, tally, tally, ih, Nat.add_assoc]
      by_cases feed : char = '\n'
      · simp [feed, Nat.add_comm, Nat.add_left_comm]
      · simp [feed]

theorem tally_congr {line : Nat} {before before' : Option Char} {text : List Char}
    (same : ∀ char, text.head? = some char → counts line before char = counts line before' char) :
    tally counts line before text = tally counts line before' text := by
  cases text with
  | nil => rfl
  | cons char text => rw [tally, tally, same char rfl]

theorem tally_eq_zero {line : Nat} {before : Option Char} {text : List Char}
    (uncounted : ∀ char ∈ text, ∀ line before, counts line before char = false) :
    tally counts line before text = 0 := by
  induction text generalizing line before with
  | nil => rfl
  | cons char text ih =>
      rw [tally, uncounted char (by simp), ih fun other member => uncounted other (by simp [member])]
      rfl

end Tally

def isBareDollarOn (number line : Nat) (before : Option Char) (char : Char) : Bool :=
  line == number && (char == '$' && before != some '\\')

theorem tally_isBareDollarOn_past {number line : Nat} (past : number < line)
    (before : Option Char) (text : List Char) :
    tally (isBareDollarOn number) line before text = 0 := by
  induction text generalizing line before with
  | nil => rfl
  | cons char text ih =>
      have other : isBareDollarOn number line before char = false := by
        simp [isBareDollarOn]
        omega
      rw [tally, other, ih (by split <;> omega)]
      rfl

theorem countDollarsAfter_lineAt (line number : Nat) (before : Option Char) (text : List Char) :
    countDollarsAfter (if number = 0 then before else none) (Text.lineAt text number) =
      tally (isBareDollarOn (line + number)) line before text := by
  induction text generalizing line number before with
  | nil => simp [tally, countDollarsAfter]
  | cons char text ih =>
      rw [tally]
      cases number with
      | zero =>
          by_cases feed : char = '\n'
          · subst feed
            rw [Text.lineAt_feed_zero, if_pos rfl, if_pos rfl,
              tally_isBareDollarOn_past (by omega)]
            simp [countDollarsAfter, isBareDollarOn]
          · have rest := ih line 0 (some char)
            rw [if_pos rfl] at rest
            rw [Text.lineAt_cons_zero feed, if_pos rfl, if_neg feed, countDollarsAfter, rest]
            simp [isBareDollarOn]
      | succ number =>
          have other : isBareDollarOn (line + (number + 1)) line before char = false := by
            simp [isBareDollarOn]
          rw [other, if_neg (by omega)]
          by_cases feed : char = '\n'
          · subst feed
            have rest := ih (line + 1) number (some '\n')
            have unseen : countDollarsAfter (if number = 0 then some '\n' else none)
                (Text.lineAt text number) = countDollarsAfter none (Text.lineAt text number) := by
              split
              · cases Text.lineAt text number <;> simp [countDollarsAfter]
              · rfl
            rw [unseen] at rest
            rw [Text.lineAt_feed_succ, rest, Nat.add_assoc, Nat.add_comm 1]
            simp
          · have rest := ih line (number + 1) (some char)
            rw [if_neg (by omega)] at rest
            rw [Text.lineAt_cons_succ feed, rest]
            simp [feed]

theorem countDollars_lineAt (text : List Char) (number : Nat) :
    countDollars (Text.lineAt text number) = tally (isBareDollarOn number) 0 none text := by
  have lines := countDollarsAfter_lineAt 0 number none text
  simpa [countDollars] using lines

namespace BareTokens

/-- A token takes part in a tally of dollars as the math that it becomes does between them. -/
theorem IsSwap.tally_body {counts : Nat → Option Char → Char → Bool}
    (dollars : ∀ line before char, counts line before char = true → char = '$')
    {text body : List Char} (swap : IsSwap text body) (line : Nat) (before before' : Option Char) :
    tally counts line before' body = tally counts line before text := by
  have others {line : Nat} {before : Option Char} {char : Char} (plain : char ≠ '$') :
      counts line before char = false :=
    Bool.eq_false_iff.mpr fun counted => plain (dollars _ _ _ counted)
  rcases swap.same with rfl | free
  · refine tally_congr fun char head => ?_
    obtain ⟨first, firstEq, plain⟩ := swap.first
    rw [firstEq, Option.some.injEq] at head
    subst head
    rw [others plain, others plain]
  · rw [tally_eq_zero fun char member _ _ => others (free char (by simp [member])).1,
      tally_eq_zero fun char member _ _ => others (free char (by simp [member])).1]

theorem IsSwap.tally_result {counts : Nat → Option Char → Char → Bool}
    (dollars : ∀ line before char, counts line before char = true → char = '$')
    {text body : List Char} (swap : IsSwap text body) (line : Nat) (before : Option Char)
    (rest : List Char) :
    tally counts line before ((Part.wrapped text body).result.text ++ rest) =
      (if counts line before '$' then 1 else 0) + tally counts line before text +
        (if counts (line + text.count '\n') body.getLast? '$' then 1 else 0) +
        tally counts (line + text.count '\n') (some '$') rest := by
  have filled : body ≠ [] := by
    rintro rfl
    obtain ⟨last, isLast, _⟩ := swap.bodyLast
    simp at isLast
  have whole : (Part.wrapped text body).result.text ++ rest = '$' :: (body ++ '$' :: rest) := by
    simp [Part.result, Region.dollars]
  have noFeed : ¬('$' : Char) = '\n' := by decide
  rw [whole, tally, if_neg noFeed, tally_append, swap.count_feed, tally, if_neg noFeed,
    Text.lastOr_of_ne_nil filled, swap.tally_body dollars line before]
  omega

end BareTokens

def Place.opensOn (number : Nat) (place : Place) : Bool :=
  place.before.count '\n' == number && place.before.getLast? != some '\\'

def Place.closesOn (number : Nat) (place : Place) : Bool :=
  (place.before ++ place.text).count '\n' == number

theorem Part.tally_isBareDollarOn {parts : List Part} (pre : List Char) {post : List Char}
    (number : Nat)
    (swaps : ∀ place ∈ places pre parts post, BareTokens.IsSwap place.text place.body) :
    tally (isBareDollarOn number) (pre.count '\n') pre.getLast? (results parts).text =
      tally (isBareDollarOn number) (pre.count '\n') pre.getLast? (sources parts).text +
        (places pre parts post).countP (Place.opensOn number) +
        (places pre parts post).countP (Place.closesOn number) := by
  induction parts generalizing pre with
  | nil => rfl
  | cons part parts ih =>
      cases part with
      | kept stroke =>
          have rest := ih (pre ++ [stroke.1]) swaps
          have line : (if stroke.1 = '\n' then pre.count '\n' + 1 else pre.count '\n') =
              (pre ++ [stroke.1]).count '\n' := by
            simp [List.count_cons]
            split <;> rfl
          rw [List.getLast?_concat] at rest
          simp only [results_cons, sources_cons, result, source, places, List.cons_append,
            List.nil_append, Painted.text, List.map_cons] at rest ⊢
          rw [tally, tally, line, rest]
          omega
      | wrapped text body =>
          have swap : BareTokens.IsSwap text body := swaps _ (List.mem_cons_self ..)
          have rest := ih (pre ++ text) fun place member => swaps place (List.mem_cons_of_mem _ member)
          have last : Text.lastOr pre.getLast? text = (pre ++ text).getLast? :=
            Text.lastOr_getLast? _ _
          have opens : isBareDollarOn number (pre.count '\n') pre.getLast? '$' =
              Place.opensOn number ⟨pre, text, body, (sources parts).text ++ post⟩ := by
            simp [isBareDollarOn, Place.opensOn]
          have closes : isBareDollarOn number (pre.count '\n' + text.count '\n') body.getLast? '$' =
              Place.closesOn number ⟨pre, text, body, (sources parts).text ++ post⟩ := by
            have unescaped := swap.bodyLast.ne '\\' (by decide)
            simp [isBareDollarOn, Place.closesOn, unescaped]
          -- Neither the dollar nor the end of the token escapes what follows.
          have onward : tally (isBareDollarOn number) (pre.count '\n' + text.count '\n') (some '$')
              (results parts).text = tally (isBareDollarOn number) ((pre ++ text).count '\n')
                (pre ++ text).getLast? (results parts).text := by
            rw [List.count_append]
            refine tally_congr fun char _ => ?_
            have unescaped := swap.last.ne '\\' (by decide)
            rw [List.getLast?_append_of_ne_nil _ swap.filled, isBareDollarOn, isBareDollarOn,
              bne_iff_ne.mpr unescaped]
            rfl
          rw [results_cons, sources_cons, Painted.text_append, Painted.text_append,
            swap.tally_result (by simp [isBareDollarOn]), onward, rest, opens, closes, source,
            Painted.text_outside, tally_append, last, List.count_append, places, List.countP_cons,
            List.countP_cons]
          omega

namespace BareTokens

/-- On every line there are as many more unescaped dollars as tokens on it open and close there, a
token after a backslash opening none. So their number stays even or odd unless a token reaches over
a line feed or follows a backslash. -/
theorem countDollars_wrap (regions : List Region) :
    ∃ parts, Part.sources parts = Piece.paint regions ∧
      Part.results parts = Piece.paint (wrap regions) ∧
      (∀ place ∈ Part.places [] parts [], Stage.Replaces .bareTokens place.before.getLast?
        place.text [Region.dollars place.body] place.after.head?) ∧
      (∀ number, countDollars (Text.lineAt (Piece.join (wrap regions)) number) =
        countDollars (Text.lineAt (Piece.join regions) number) +
          (Part.places [] parts []).countP (Place.opensOn number) +
          (Part.places [] parts []).countP (Place.closesOn number)) ∧
      ((∀ place ∈ Part.places [] parts [],
          '\n' ∉ place.text ∧ place.before.getLast? ≠ some '\\') →
        ∀ number, countDollars (Text.lineAt (Piece.join (wrap regions)) number) % 2 =
          countDollars (Text.lineAt (Piece.join regions) number) % 2) := by
  obtain ⟨parts, sourcesEq, resultsEq, wrappings⟩ :=
    @reworks_wrap False regions False.elim
  have swaps : ∀ place ∈ Part.places [] parts [], IsSwap place.text place.body :=
    fun place member => isSwap_of_replaces (wrappings place member).replaces
  have counted (number : Nat) := Part.tally_isBareDollarOn [] number swaps
  simp only [sourcesEq, resultsEq, Painted.text_paint, List.count_nil, List.getLast?_nil,
    ← countDollars_lineAt] at counted
  refine ⟨parts, sourcesEq, resultsEq, fun place member => (wrappings place member).replaces,
    counted, fun plain number => ?_⟩
  have pairs : (Part.places [] parts []).countP (Place.opensOn number) =
      (Part.places [] parts []).countP (Place.closesOn number) := by
    refine List.countP_congr fun place member => ?_
    obtain ⟨onLine, unescaped⟩ := plain place member
    simp [Place.opensOn, Place.closesOn, List.count_eq_zero_of_not_mem onLine, unescaped]
  rw [counted, pairs]
  omega

/-- A root that reaches over a line feed leaves one dollar on each of its lines. -/
theorem countDollars_wrap_ne :
    ¬ ∀ (regions : List Region) (number : Nat),
      countDollars (Text.lineAt (Piece.join (wrap regions)) number) % 2 =
        countDollars (Text.lineAt (Piece.join regions) number) % 2 := by
  intro even
  have same := even [Region.outside "\\sqrt\x7ba\nb\x7d".toList] 0
  revert same
  decide +kernel

end BareTokens

def isDoubleDollar (_ : Nat) (before : Option Char) (char : Char) : Bool :=
  before == some '$' && char == '$'

def doubleDollars (text : List Char) : Nat :=
  (text.zip text.tail).count ('$', '$')

theorem doubleDollars_cons (char : Char) (text : List Char) (line : Nat) :
    doubleDollars (char :: text) = tally isDoubleDollar line (some char) text := by
  induction text generalizing char line with
  | nil => rfl
  | cons next text ih =>
      rw [tally, ← ih next, doubleDollars, doubleDollars, List.tail_cons, List.zip_cons_cons,
        List.count_cons, List.tail_cons, Nat.add_comm]
      simp [isDoubleDollar, Prod.ext_iff]

theorem doubleDollars_eq_tally (text : List Char) :
    doubleDollars text = tally isDoubleDollar 0 none text := by
  cases text with
  | nil => rfl
  | cons char text =>
      rw [tally, doubleDollars_cons char text (if char = '\n' then 0 + 1 else 0)]
      simp [isDoubleDollar]

/-- A dollar before a text makes one more pair if the text starts with a dollar. -/
theorem tally_isDoubleDollar_after {before : Option Char} (other : before ≠ some '$') (line : Nat)
    (text : List Char) : tally isDoubleDollar line (some '$') text =
      tally isDoubleDollar line before text + if text.head? = some '$' then 1 else 0 := by
  cases text with
  | nil => rfl
  | cons char text =>
      rw [tally, tally]
      simp only [isDoubleDollar, beq_eq_false_iff_ne.mpr other, List.head?_cons, Option.some.injEq,
        BEq.rfl, Bool.true_and, Bool.false_and, beq_iff_eq]
      simp [Nat.add_comm]

namespace Part

def isWrapped : Part → Bool
  | kept _ => false
  | wrapped _ _ => true

def touching (parts : List Part) : Nat :=
  (parts.zip parts.tail).countP fun pair => pair.1.isWrapped && pair.2.isWrapped

theorem touching_cons (part : Part) (parts : List Part) : touching (part :: parts) =
    touching parts + if part.isWrapped && parts.head?.any isWrapped then 1 else 0 := by
  cases parts with
  | nil => simp [touching]
  | cons next parts => simp [touching, List.countP_cons]

theorem head?_results {parts : List Part} {pre post : List Char}
    (swaps : ∀ place ∈ places pre parts post, BareTokens.IsSwap place.text place.body) :
    (if (results parts).text.head? = some '$' then 1 else 0) =
      (if (sources parts).text.head? = some '$' then 1 else 0) +
        if parts.head?.any isWrapped then 1 else 0 := by
  cases parts with
  | nil => rfl
  | cons part parts =>
      cases part with
      | kept stroke => simp [result, source, isWrapped, Painted.text]
      | wrapped text body =>
          have swap : BareTokens.IsSwap text body := swaps _ (List.mem_cons_self ..)
          obtain ⟨first, firstEq, plain⟩ := swap.first
          obtain ⟨rest, rfl⟩ := List.head?_eq_some_iff.mp firstEq
          simp [result, source, isWrapped, Region.dollars, plain]

theorem tally_isDoubleDollar {parts : List Part} (line : Nat) (pre : List Char)
    (swaps : ∀ place ∈ places pre parts [], BareTokens.IsSwap place.text place.body) :
    tally isDoubleDollar line pre.getLast? (results parts).text =
      tally isDoubleDollar line pre.getLast? (sources parts).text + touching parts +
        (places pre parts []).countP (·.before.getLast? == some '$') +
        (places pre parts []).countP (·.after.head? == some '$') := by
  induction parts generalizing line pre with
  | nil => rfl
  | cons part parts ih =>
      cases part with
      | kept stroke =>
          have rest := ih (if stroke.1 = '\n' then line + 1 else line) (pre ++ [stroke.1]) swaps
          rw [List.getLast?_concat] at rest
          simp only [results_cons, sources_cons, result, source, places, List.cons_append,
            List.nil_append, Painted.text, List.map_cons, touching_cons, isWrapped,
            Bool.false_and] at rest ⊢
          rw [tally, tally, rest]
          simp [Nat.add_assoc]
      | wrapped text body =>
          have swap : BareTokens.IsSwap text body := swaps _ (List.mem_cons_self ..)
          have others : ∀ place ∈ places (pre ++ text) parts [],
              BareTokens.IsSwap place.text place.body :=
            fun place member => swaps place (List.mem_cons_of_mem _ member)
          have rest := ih (line + text.count '\n') (pre ++ text) others
          have last : Text.lastOr pre.getLast? text = (pre ++ text).getLast? :=
            Text.lastOr_getLast? _ _
          have plain : (pre ++ text).getLast? ≠ some '$' := by
            rw [List.getLast?_append_of_ne_nil _ swap.filled]
            exact swap.last.ne '$' (by decide)
          have closed : isDoubleDollar (line + text.count '\n') body.getLast? '$' = false := by
            simpa [isDoubleDollar] using swap.bodyLast.ne '$' (by decide)
          have opened : isDoubleDollar line pre.getLast? '$' = (pre.getLast? == some '$') := by
            simp [isDoubleDollar]
          rw [results_cons, sources_cons, Painted.text_append, Painted.text_append,
            swap.tally_result (by simp [isDoubleDollar]), tally_isDoubleDollar_after plain,
            head?_results others, rest, closed, opened, source, Painted.text_outside, tally_append,
            last, touching_cons, places, List.countP_cons, List.countP_cons]
          simp only [isWrapped, Bool.true_and, List.append_nil, beq_iff_eq]
          simp only [Bool.false_eq_true, if_false]
          omega

end Part

namespace BareTokens

/-- Two dollars come to stand side by side where tokens follow each other directly, or where a token
is wrapped next to a dollar. The latter happens next to regions without text only, as the passes
look at the neighbouring regions for dollars. -/
theorem doubleDollars_wrap (regions : List Region) :
    ∃ parts, Part.sources parts = Piece.paint regions ∧
      Part.results parts = Piece.paint (wrap regions) ∧
      (∀ place ∈ Part.places [] parts [], Stage.Replaces .bareTokens place.before.getLast?
        place.text [Region.dollars place.body] place.after.head?) ∧
      doubleDollars (Piece.join (wrap regions)) =
        doubleDollars (Piece.join regions) + Part.touching parts +
          (Part.places [] parts []).countP (·.before.getLast? == some '$') +
          (Part.places [] parts []).countP (·.after.head? == some '$') ∧
      ((∀ region ∈ regions, region.text ≠ []) → ∀ place ∈ Part.places [] parts [],
        place.before.getLast? ≠ some '$' ∧ place.after.head? ≠ some '$') := by
  obtain ⟨parts, sourcesEq, resultsEq, wrappings⟩ := @reworks_wrap _ regions id
  have swaps : ∀ place ∈ Part.places [] parts [], IsSwap place.text place.body :=
    fun place member => isSwap_of_replaces (wrappings place member).replaces
  have counted := Part.tally_isDoubleDollar 0 [] swaps
  simp only [sourcesEq, resultsEq, Painted.text_paint, List.getLast?_nil,
    ← doubleDollars_eq_tally] at counted
  exact ⟨parts, sourcesEq, resultsEq, fun place member => (wrappings place member).replaces,
    counted, fun nonempty place member => (wrappings place member).apart nonempty⟩

/-- Two roots in a row are both wrapped. -/
theorem doubleDollars_wrap_lt :
    ¬ ∀ regions : List Region,
      doubleDollars (Piece.join (wrap regions)) ≤ doubleDollars (Piece.join regions) := by
  intro bounded
  have small := bounded [Region.outside "\\sqrt\x7b2\x7d\\sqrt\x7b3\x7d".toList]
  revert small
  decide +kernel

end BareTokens

end DollarMath
