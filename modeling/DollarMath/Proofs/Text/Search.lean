import DollarMath.Proofs.Text.Ends
import DollarMath.Text.Span
import Mathlib.Data.List.Infix

/-!
Searches of a text from left to right, by induction on the finds: what a find is, where it lies, and
that the finds do not overlap.
-/

namespace DollarMath.Text

variable {α : Type} {recognize first second : Recognizer α} {before : Option Char}

theorem scan_of_none {before : Option Char} {char : Char} {rest : List Char}
    (missed : recognize before (char :: rest) = none) :
    scan recognize before (char :: rest) = .gap char :: scan recognize (some char) rest := by
  rw [scan, missed]

theorem scan_of_some {before : Option Char} {taken left : List Char} {value : α}
    (filled : taken ≠ []) (found : recognize before (taken ++ left) = some (taken.length, value)) :
    scan recognize before (taken ++ left) =
      .hit before taken value left.head? :: scan recognize taken.getLast? left := by
  obtain ⟨first, taken, rfl⟩ := List.exists_cons_of_ne_nil filled
  rw [List.cons_append] at found ⊢
  rw [scan, found]
  simp

/-- A search goes over a text in which nothing is found. -/
theorem scan_append_of_missed {front rest : List Char}
    (missed : ∀ lead char back, front = lead ++ char :: back →
      recognize (lastOr before lead) (char :: (back ++ rest)) = none) :
    scan recognize before (front ++ rest) =
      front.map .gap ++ scan recognize (lastOr before front) rest := by
  induction front generalizing before with
  | nil => rfl
  | cons char front ih =>
      have own : recognize before (char :: (front ++ rest)) = none := missed [] char front rfl
      have later := @ih (some char) fun lead next back split => by
        simpa using missed (char :: lead) next back (by rw [split, List.cons_append])
      rw [List.cons_append, scan_of_none own, later]
      rfl

theorem scan_append_of_bare {opener : Char}
    (starts : ∀ {char}, char ≠ opener → ∀ before rest, recognize before (char :: rest) = none)
    {text : List Char} (bare : opener ∉ text) (before : Option Char) (rest : List Char) :
    scan recognize before (text ++ rest) =
      text.map .gap ++ scan recognize (lastOr before text) rest := by
  apply scan_append_of_missed
  rintro lead char back rfl
  apply starts
  rintro rfl
  exact bare (by simp)

def Recognizer.Takes (recognize : Recognizer α) : Prop :=
  ∀ before text size value, recognize before text = some (size, value) →
    ∃ taken left, text = taken ++ left ∧ size = taken.length ∧ taken ≠ []

/-- Induction along a search: past a character that starts no find, or past a find. -/
theorem Recognizer.Takes.search (takes : recognize.Takes) {motive : Option Char → List Char → Prop}
    (nil : ∀ before, motive before [])
    (gap : ∀ before char rest, recognize before (char :: rest) = none →
      motive (some char) rest → motive before (char :: rest))
    (hit : ∀ before taken left value, taken ≠ [] →
      recognize before (taken ++ left) = some (taken.length, value) →
      motive taken.getLast? left → motive before (taken ++ left))
    (before : Option Char) (text : List Char) : motive before text := by
  induction count : text.length using Nat.strong_induction_on generalizing before text with
  | _ size ih =>
      cases text with
      | nil => exact nil before
      | cons char rest =>
          cases found : recognize before (char :: rest) with
          | none => exact gap before char rest found (ih rest.length (by simp [← count]) _ _ rfl)
          | some find =>
              obtain ⟨taken, left, whole, sizeEq, filled⟩ := takes _ _ _ _ found
              have positive := List.length_pos_iff.mpr filled
              have shorter : left.length < size := by
                rw [← count, whole, List.length_append]
                omega
              rw [whole]
              refine hit before taken left find.2 filled ?_ (ih left.length shorter _ _ rfl)
              rw [← whole, found, ← sizeEq]

def Found.Meets (asked : List Char → α → Option Char → Prop) : Found α → Prop
  | .gap _ => True
  | .hit _ taken value after => asked taken value after

theorem Found.meets_true (found : Found α) : found.Meets fun _ _ _ => True := by
  cases found <;> trivial

theorem meets_scan {asked : List Char → α → Option Char → Prop} (takes : recognize.Takes)
    (own : ∀ before taken left value,
      recognize before (taken ++ left) = some (taken.length, value) → asked taken value left.head?)
    (before : Option Char) (text : List Char) :
    ∀ found ∈ scan recognize before text, found.Meets asked := by
  refine takes.search (motive := fun before text =>
    ∀ found ∈ scan recognize before text, found.Meets asked) ?_ ?_ ?_ before text
  · intro before found member
    simp [scan] at member
  · intro before char rest missed ih found member
    rw [scan_of_none missed] at member
    rcases List.mem_cons.mp member with rfl | later
    · trivial
    · exact ih found later
  · intro before taken left value filled taking ih found member
    rw [scan_of_some filled taking] at member
    rcases List.mem_cons.mp member with rfl | later
    · exact own before taken left value taking
    · exact ih found later

theorem Recognizer.Takes.text_ne_nil (takes : recognize.Takes) {text : List Char} {found : Found α}
    (member : found ∈ scan recognize before text) : found.text ≠ [] := by
  have own (before : Option Char) (taken left : List Char) (value : α)
      (found : recognize before (taken ++ left) = some (taken.length, value)) : taken ≠ [] := by
    rintro rfl
    obtain ⟨other, _, _, size, filled⟩ := takes _ _ _ _ found
    exact filled (List.length_eq_zero_iff.mp size.symm)
  have meets : found.Meets fun taken _ _ => taken ≠ [] := meets_scan takes own before text found member
  cases found with
  | gap char => simp [Found.text]
  | hit previous taken value next => exact meets

theorem isSome_of_mem_scan {previous next : Option Char} {text taken : List Char} {value : α}
    (inside : before.isSome = true)
    (member : .hit previous taken value next ∈ scan recognize before text) :
    previous.isSome = true := by
  fun_induction scan recognize before text with
  | case1 => simp at member
  | case2 _ _ _ _ ih => exact ih rfl (by simpa using member)
  | case3 before char rest size value found taken left ih =>
      rcases List.mem_cons.mp member with same | later
      · simp only [Found.hit.injEq] at same
        rw [same.1]
        exact inside
      · exact ih (by simp [taken]) later

/-- What the recogniser saw at a find: the character before it, the find, and all that follows. -/
theorem Recognizer.Takes.scan_split (takes : recognize.Takes) {front back : List (Found α)}
    {text taken : List Char} {previous next : Option Char} {value : α}
    (parts : scan recognize before text = front ++ .hit previous taken value next :: back) :
    previous = lastOr before (front.flatMap Found.text) ∧ next = (back.flatMap Found.text).head? ∧
      recognize previous (taken ++ back.flatMap Found.text) = some (taken.length, value) := by
  refine takes.search (motive := fun before text => ∀ front,
    scan recognize before text = front ++ .hit previous taken value next :: back →
      previous = lastOr before (front.flatMap Found.text) ∧
        next = (back.flatMap Found.text).head? ∧
        recognize previous (taken ++ back.flatMap Found.text) = some (taken.length, value))
    ?_ ?_ ?_ before text front parts
  · intro before front parts
    simp [scan] at parts
  · intro before char rest missed ih front parts
    rw [scan_of_none missed] at parts
    cases front with
    | nil => simp at parts
    | cons found front =>
        obtain ⟨rfl, later⟩ := List.cons.inj parts
        exact ih front later
  · intro before own left ownValue filled found ih front parts
    rw [scan_of_some filled found] at parts
    cases front with
    | nil =>
        obtain ⟨same, rfl⟩ := List.cons.inj parts
        obtain ⟨rfl, rfl, rfl, rfl⟩ := Found.hit.inj same
        rw [flatMap_text_scan]
        exact ⟨rfl, rfl, found⟩
    | cons other front =>
        obtain ⟨rfl, later⟩ := List.cons.inj parts
        obtain ⟨previousEq, nextEq, again⟩ := ih front later
        refine ⟨?_, nextEq, again⟩
        rw [List.flatMap_cons, lastOr_append, Found.text, lastOr_of_ne_nil filled]
        exact previousEq

theorem scan_congr (same : ∀ char text, first (some char) text = second (some char) text)
    (inside : before.isSome = true) (text : List Char) :
    scan first before text = scan second before text := by
  fun_induction scan first before text with
  | case1 => rw [scan]
  | case2 before char rest found ih =>
      obtain ⟨last, rfl⟩ := Option.isSome_iff_exists.mp inside
      rw [same] at found
      simp only [scan, found, ih rfl]
  | case3 before char rest size value found taken left ih =>
      obtain ⟨last, rfl⟩ := Option.isSome_iff_exists.mp inside
      rw [same] at found
      rw [ih (by simp [taken])]
      simp only [scan, found, taken, left]

theorem le_start_of_mem_hitSpans {parts : List (Found α)} {offset : Nat} {span : Span}
    (member : span ∈ hitSpans offset parts) : offset ≤ span.start := by
  induction parts generalizing offset with
  | nil => simp [hitSpans] at member
  | cons part parts ih =>
      cases part with
      | gap char => exact Nat.le_of_succ_le (ih member)
      | hit _ taken _ _ =>
          rcases List.mem_cons.mp member with rfl | later
          · exact Nat.le_refl _
          · exact Nat.le_trans (Nat.le_add_right _ _) (ih later)

theorem Recognizer.Takes.exists_of_mem_hitSpans (takes : recognize.Takes) {pre text : List Char}
    {span : Span} (member : span ∈ hitSpans pre.length (scan recognize before text)) :
    ∃ previous front taken left value, text = front ++ (taken ++ left) ∧
      recognize previous (taken ++ left) = some (taken.length, value) ∧
      span = ⟨(pre ++ front).length, (pre ++ front).length + taken.length⟩ := by
  refine takes.search (motive := fun before text => ∀ pre : List Char,
    span ∈ hitSpans pre.length (scan recognize before text) →
      ∃ previous front taken left value, text = front ++ (taken ++ left) ∧
        recognize previous (taken ++ left) = some (taken.length, value) ∧
        span = ⟨(pre ++ front).length, (pre ++ front).length + taken.length⟩)
    ?_ ?_ ?_ before text pre member
  · intro before pre member
    simp [scan, hitSpans] at member
  · intro before char rest missed ih pre member
    rw [scan_of_none missed, hitSpans] at member
    obtain ⟨previous, front, taken, left, value, rfl, found, place⟩ :=
      ih (pre ++ [char]) (by simpa using member)
    exact ⟨previous, char :: front, taken, left, value, rfl, found, by simpa using place⟩
  · intro before taken left value filled found ih pre member
    rw [scan_of_some filled found, hitSpans] at member
    rcases List.mem_cons.mp member with rfl | later
    · exact ⟨before, [], taken, left, value, rfl, found, by simp⟩
    · obtain ⟨previous, front, next, others, value, rfl, found, place⟩ :=
        ih (pre ++ taken) (by simpa using later)
      exact ⟨previous, taken ++ front, next, others, value, by simp, found, by simpa using place⟩

structure LieApart (low high : Nat) (spans : List Span) : Prop where
  bounds : low ≤ high
  within : ∀ span ∈ spans, low ≤ span.start ∧ span.start < span.stop ∧ span.stop ≤ high
  apart : spans.Pairwise fun first second => first.stop ≤ second.start

theorem LieApart.nil {low high : Nat} (bounds : low ≤ high) : LieApart low high [] :=
  ⟨bounds, by simp, .nil⟩

theorem LieApart.single {start stop : Nat} (filled : start < stop) :
    LieApart start stop [⟨start, stop⟩] :=
  ⟨filled.le, by simpa using filled, List.pairwise_singleton ..⟩

theorem LieApart.append {low middle high : Nat} {front back : List Span}
    (lower : LieApart low middle front) (upper : LieApart middle high back) :
    LieApart low high (front ++ back) := by
  refine ⟨lower.bounds.trans upper.bounds, fun span member => ?_,
    List.pairwise_append.mpr ⟨lower.apart, upper.apart, fun first inFront second inBack => ?_⟩⟩
  · rcases List.mem_append.mp member with inFront | inBack
    · obtain ⟨above, filled, below⟩ := lower.within span inFront
      exact ⟨above, filled, below.trans upper.bounds⟩
    · obtain ⟨above, filled, below⟩ := upper.within span inBack
      exact ⟨lower.bounds.trans above, filled, below⟩
  · exact (lower.within first inFront).2.2.trans (upper.within second inBack).1

theorem Recognizer.Takes.lieApart_hitSpans (takes : recognize.Takes) (offset : Nat)
    (before : Option Char) (text : List Char) :
    LieApart offset (offset + text.length) (hitSpans offset (scan recognize before text)) := by
  refine takes.search (motive := fun before text => ∀ offset, LieApart offset
    (offset + text.length) (hitSpans offset (scan recognize before text))) ?_ ?_ ?_ before text offset
  · intro before offset
    rw [scan]
    exact .nil (Nat.le_refl _)
  · intro before char rest missed ih offset
    rw [scan_of_none missed, hitSpans, List.length_cons, Nat.add_comm rest.length, ← Nat.add_assoc]
    exact (LieApart.nil (Nat.le_succ _)).append (ih (offset + 1))
  · intro before taken left value filled found ih offset
    rw [scan_of_some filled found, hitSpans, List.length_append, ← Nat.add_assoc]
    exact (LieApart.single (by simpa using List.length_pos_iff.mpr filled)).append
      (ih (offset + taken.length))

theorem splitWhere?_shortest {ending : List Char → Option (List Char)}
    {text front back shorter tail : List Char}
    (found : splitWhere? ending text = some (front, back)) (whole : text = shorter ++ tail)
    (ends : (ending tail).isSome = true) : front.length ≤ shorter.length := by
  induction text generalizing front shorter with
  | nil =>
      obtain ⟨rest, _, same⟩ := Option.map_eq_some_iff.mp found
      obtain ⟨rfl, _⟩ := Prod.mk.inj same
      exact Nat.zero_le _
  | cons char rest ih =>
      rw [splitWhere?] at found
      split at found
      next after own =>
        simp only [Option.some.injEq, Prod.mk.injEq] at found
        obtain ⟨rfl, rfl⟩ := found
        exact Nat.zero_le _
      next missed =>
        obtain ⟨⟨init, left⟩, later, same⟩ := Option.map_eq_some_iff.mp found
        obtain ⟨rfl, rfl⟩ := Prod.mk.inj same
        cases shorter with
        | nil =>
            rw [List.nil_append] at whole
            rw [← whole, missed] at ends
            simp at ends
        | cons first shorter =>
            obtain ⟨rfl, restEq⟩ := List.cons.inj whole
            exact Nat.succ_le_succ (ih later restEq)

theorem splitWhere?_eq_none_iff {ending : List Char → Option (List Char)} {text : List Char} :
    splitWhere? ending text = none ↔ ∀ tail, tail <:+ text → ending tail = none := by
  induction text with
  | nil => simp [splitWhere?]
  | cons char rest ih =>
      simp only [List.suffix_cons_iff, forall_eq_or_imp, ← ih, splitWhere?]
      cases ending (char :: rest) <;> simp

theorem isSome_splitAtFirst?_iff {needle text : List Char} :
    (splitAtFirst? needle text).isSome = true ↔ needle <:+: text := by
  rw [← not_iff_not, Bool.not_eq_true, Option.isSome_eq_false_iff, Option.isNone_iff_eq_none,
    splitAtFirst?, splitWhere?_eq_none_iff, List.infix_iff_prefix_suffix]
  simp [afterWord?, imp_not_comm]

theorem splitAtFirst?_shortest {needle text front back shorter : List Char}
    (found : splitAtFirst? needle text = some (front, back))
    (starts : shorter ++ needle <+: front ++ needle) : shorter = front := by
  obtain ⟨rest, whole⟩ := starts
  have textEq := splitAtFirst?_eq_some found
  rw [← whole, List.append_assoc, List.append_assoc] at textEq
  have upper : shorter.length ≤ front.length := by
    have lengths := congrArg List.length whole
    simp only [List.length_append] at lengths
    omega
  have lower := splitWhere?_shortest found textEq (by simp [afterWord?])
  rw [List.append_assoc] at whole
  exact (List.append_inj whole (by omega)).1

end DollarMath.Text
