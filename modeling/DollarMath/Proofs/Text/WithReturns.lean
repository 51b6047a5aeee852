import DollarMath.Proofs.Text.Lines
import DollarMath.Text.Scan
import Mathlib.Data.List.Infix

/-!
A text with a carriage return put before every line feed, and how what is read from a text goes over
to it.
-/

namespace DollarMath.Text

def withReturns : List Char → List Char
  | [] => []
  | char :: rest =>
    if char = '\n' then '\r' :: '\n' :: withReturns rest else char :: withReturns rest

def asReturn (char : Char) : Char :=
  if char = '\n' then '\r' else char

@[simp] theorem withReturns_nil : withReturns [] = [] := rfl

@[simp] theorem withReturns_feed (rest : List Char) :
    withReturns ('\n' :: rest) = '\r' :: '\n' :: withReturns rest := rfl

theorem withReturns_cons {char : Char} (other : char ≠ '\n') (rest : List Char) :
    withReturns (char :: rest) = char :: withReturns rest := by
  rw [withReturns, if_neg other]

@[simp] theorem withReturns_append (first second : List Char) :
    withReturns (first ++ second) = withReturns first ++ withReturns second := by
  induction first with
  | nil => rfl
  | cons char first ih =>
      by_cases feed : char = '\n'
      · simp [feed, ih]
      · simp [withReturns_cons feed, ih]

theorem withReturns_of_free {text : List Char} (free : '\n' ∉ text) : withReturns text = text := by
  induction text with
  | nil => rfl
  | cons char text ih =>
      have other : char ≠ '\n' := by
        rintro rfl
        exact free (by simp)
      rw [withReturns_cons other, ih fun member => free (by simp [member])]

@[simp] theorem withReturns_eq_nil {text : List Char} : withReturns text = [] ↔ text = [] := by
  cases text with
  | nil => simp
  | cons char text =>
      by_cases feed : char = '\n'
      · simp [feed]
      · simp [withReturns_cons feed]

theorem withReturns_eq_cons {char : Char} (other : char ≠ '\r') {text after : List Char}
    (same : withReturns text = char :: after) :
    ∃ rest, text = char :: rest ∧ after = withReturns rest := by
  cases text with
  | nil => simp at same
  | cons first text =>
      by_cases feed : first = '\n'
      · rw [feed, withReturns_feed] at same
        exact absurd (List.cons.inj same).1.symm other
      · rw [withReturns_cons feed] at same
        obtain ⟨rfl, rfl⟩ := List.cons.inj same
        exact ⟨text, rfl, rfl⟩

@[simp] theorem isEmpty_withReturns (text : List Char) :
    (withReturns text).isEmpty = text.isEmpty := by
  rw [Bool.eq_iff_iff, List.isEmpty_iff, List.isEmpty_iff, withReturns_eq_nil]

@[simp] theorem withReturns_flatten (parts : List (List Char)) :
    withReturns parts.flatten = (parts.map withReturns).flatten := by
  induction parts with
  | nil => rfl
  | cons part parts ih => simp [ih]

theorem filter_withReturns {text : List Char} (free : '\r' ∉ text) :
    (withReturns text).filter (· != '\r') = text := by
  induction text with
  | nil => rfl
  | cons char text ih =>
      have later := ih fun member => free (by simp [member])
      by_cases feed : char = '\n'
      · simp [feed, later]
      · have other : char ≠ '\r' := by
          rintro rfl
          exact free (by simp)
        simp [withReturns_cons feed, other, later]

theorem mem_withReturns {char : Char} (other : char ≠ '\r') {text : List Char} :
    char ∈ withReturns text ↔ char ∈ text := by
  induction text with
  | nil => simp
  | cons first text ih =>
      by_cases feed : first = '\n'
      · simp [feed, ih, other]
      · simp [withReturns_cons feed, ih]

theorem withReturns_eq_iff {word : List Char} (free : '\n' ∉ word) {text : List Char} :
    withReturns text = word ↔ text = word := by
  constructor
  · rintro rfl
    rw [mem_withReturns (by decide)] at free
    exact (withReturns_of_free free).symm
  · rintro rfl
    exact withReturns_of_free free

theorem contains_withReturns {char : Char} (other : char ≠ '\r') (text : List Char) :
    (withReturns text).contains char = text.contains char := by
  rw [Bool.eq_iff_iff, List.contains_iff_mem, List.contains_iff_mem, mem_withReturns other]

theorem filter_of_free {word : List Char} (free : '\r' ∉ word) :
    word.filter (· != '\r') = word := by
  refine List.filter_eq_self.mpr fun char member => ?_
  rw [bne_iff_ne]
  rintro rfl
  exact free member

theorem isPrefixOf_withReturns {word text : List Char} (bare : '\r' ∉ word ∧ '\n' ∉ word)
    (free : '\r' ∉ text) : word.isPrefixOf (withReturns text) = word.isPrefixOf text := by
  rw [Bool.eq_iff_iff, List.isPrefixOf_iff_prefix, List.isPrefixOf_iff_prefix]
  constructor
  · intro starts
    have back := starts.filter (· != '\r')
    rwa [filter_of_free bare.1, filter_withReturns free] at back
  · rintro ⟨rest, rfl⟩
    rw [withReturns_append, withReturns_of_free bare.2]
    exact List.prefix_append _ _

theorem isSuffixOf_withReturns {word text : List Char} (bare : '\r' ∉ word ∧ '\n' ∉ word)
    (free : '\r' ∉ text) : word.isSuffixOf (withReturns text) = word.isSuffixOf text := by
  rw [Bool.eq_iff_iff, List.isSuffixOf_iff_suffix, List.isSuffixOf_iff_suffix]
  constructor
  · intro ends
    have back := ends.filter (· != '\r')
    rwa [filter_of_free bare.1, filter_withReturns free] at back
  · rintro ⟨rest, rfl⟩
    rw [withReturns_append, withReturns_of_free bare.2]
    exact List.suffix_append _ _

@[simp] theorem getLast?_withReturns (text : List Char) :
    (withReturns text).getLast? = text.getLast? := by
  rcases List.eq_nil_or_concat' text with rfl | ⟨front, last, rfl⟩
  · rfl
  · rw [withReturns_append, List.getLast?_concat]
    by_cases feed : last = '\n'
    · simp [feed]
    · simp [withReturns_cons feed]

@[simp] theorem head?_withReturns (text : List Char) :
    (withReturns text).head? = text.head?.map asReturn := by
  cases text with
  | nil => rfl
  | cons char text =>
      by_cases feed : char = '\n'
      · simp [feed, asReturn]
      · simp [withReturns_cons feed, asReturn, feed]

theorem map_asReturn_beq {char : Char} (bare : isReturn char = false) (next : Option Char) :
    (next.map asReturn == some char) = (next == some char) := by
  have notReturn : char ≠ '\r' ∧ char ≠ '\n' := by simpa [isReturn] using bare
  cases next with
  | none => rfl
  | some first =>
      by_cases feed : first = '\n'
      · simp [feed, asReturn, notReturn.1.symm, notReturn.2.symm]
      · simp [feed, asReturn]

theorem any_asReturn {test : Char → Bool} (same : test '\r' = test '\n') (next : Option Char) :
    (next.map asReturn).any test = next.any test := by
  cases next with
  | none => rfl
  | some char =>
      by_cases feed : char = '\n'
      · simp [asReturn, feed, same]
      · simp [asReturn, feed]

section Tests

variable {test : Char → Bool}

theorem takeWhile_withReturns (same : test '\r' = test '\n') (text : List Char) :
    (withReturns text).takeWhile test = withReturns (text.takeWhile test) := by
  induction text with
  | nil => rfl
  | cons char text ih =>
      by_cases feed : char = '\n'
      · subst feed
        cases passes : test '\n' with
        | true => simp [same, passes, ih]
        | false => simp [same, passes]
      · cases passes : test char with
        | true => simp [withReturns_cons feed, passes, ih]
        | false => simp [withReturns_cons feed, passes]

theorem dropWhile_withReturns (same : test '\r' = test '\n') (text : List Char) :
    (withReturns text).dropWhile test = withReturns (text.dropWhile test) := by
  induction text with
  | nil => rfl
  | cons char text ih =>
      by_cases feed : char = '\n'
      · subst feed
        cases passes : test '\n' with
        | true => simp [same, passes, ih]
        | false => simp [same, passes]
      · cases passes : test char with
        | true => simp [withReturns_cons feed, passes, ih]
        | false => simp [withReturns_cons feed, passes]

theorem drop_takeWhile (test : Char → Bool) (text : List Char) :
    text.drop (text.takeWhile test).length = text.dropWhile test := by
  have whole := List.takeWhile_append_dropWhile (p := test) (l := text)
  generalize text.takeWhile test = front at whole
  rw [← whole, List.drop_left]
  rw [whole]

theorem take_between (first last : Char) (body left : List Char) :
    (first :: (body ++ last :: left)).take (body.length + 2) = first :: body ++ [last] := by
  have whole : first :: (body ++ last :: left) = (first :: body ++ [last]) ++ left := by simp
  rw [whole, List.take_left' (by simp)]

/-- A mark searched for in a line is found past the same text, or in neither text. -/
theorem dropWhile_line_withReturns (feed : test '\n' = false) (ret : test '\r' = true)
    {mark : Char} (bare : isReturn mark = false)
    (stops : ∀ char, test char = false → char = mark ∨ char = '\n') (text : List Char) :
    (∃ left, text.dropWhile test = mark :: left ∧
      (withReturns text).dropWhile test = mark :: withReturns left ∧
      (withReturns text).takeWhile test = text.takeWhile test) ∨
    ((∀ left, text.dropWhile test ≠ mark :: left) ∧
      ∀ left, (withReturns text).dropWhile test ≠ mark :: left) := by
  have notReturn : mark ≠ '\r' ∧ mark ≠ '\n' := by simpa [isReturn] using bare
  have whole := List.takeWhile_append_dropWhile (p := test) (l := text)
  have inside : ∀ char ∈ text.takeWhile test, test char = true :=
    fun _ member => List.mem_takeWhile_imp member
  have stopped := List.head?_dropWhile_not test text
  generalize text.takeWhile test = body at whole inside ⊢
  generalize text.dropWhile test = tail at whole stopped ⊢
  have onLine : '\n' ∉ body := by
    intro member
    rw [inside _ member] at feed
    exact absurd feed (by decide)
  rw [← whole, withReturns_append, withReturns_of_free onLine,
    List.dropWhile_append_of_pos inside, List.takeWhile_append_of_pos inside]
  cases tail with
  | nil => exact .inr ⟨by simp, by simp⟩
  | cons char left =>
      rcases stops char (by simpa using stopped) with rfl | rfl
      · left
        rw [withReturns_cons notReturn.2]
        have fails : test char = false := by simpa using stopped
        exact ⟨left, rfl, by simp [fails], by simp [fails]⟩
      · right
        constructor
        · intro rest same
          exact notReturn.2 (List.cons.inj same).1.symm
        · intro rest same
          rw [withReturns_feed, List.dropWhile_cons_of_pos ret,
            List.dropWhile_cons_of_neg (by simp [feed])] at same
          exact notReturn.2 (List.cons.inj same).1.symm

theorem dropRightWhile_concat (drop : Char → Bool) (text : List Char) (last : Char) :
    dropRightWhile drop (text ++ [last]) =
      if drop last then dropRightWhile drop text else text ++ [last] := by
  simp only [dropRightWhile, List.reverse_append, List.reverse_singleton, List.singleton_append,
    List.dropWhile_cons]
  split <;> simp

theorem dropRightWhile_withReturns (same : test '\r' = test '\n') (text : List Char) :
    dropRightWhile test (withReturns text) = withReturns (dropRightWhile test text) := by
  induction text using List.reverseRecOn with
  | nil => rfl
  | append_singleton text last ih =>
      rw [dropRightWhile_concat, withReturns_append]
      by_cases feed : last = '\n'
      · subst feed
        have pair : withReturns ['\n'] = ['\r'] ++ ['\n'] := rfl
        rw [pair, ← List.append_assoc, dropRightWhile_concat, dropRightWhile_concat, same]
        split
        · exact ih
        · simp
      · have single : withReturns [last] = [last] := withReturns_cons feed []
        rw [single, dropRightWhile_concat]
        split
        · exact ih
        · rw [withReturns_append, single]

theorem all_withReturns (same : test '\r' = test '\n') (text : List Char) :
    (withReturns text).all test = text.all test := by
  induction text with
  | nil => rfl
  | cons char text ih =>
      by_cases feed : char = '\n'
      · subst feed
        cases passes : test '\n' <;> simp [same, passes, ih]
      · simp [withReturns_cons feed, ih]

end Tests

@[simp] theorem strip_withReturns (text : List Char) :
    strip (withReturns text) = withReturns (strip text) := by
  rw [strip, strip, stripLeft, stripLeft, dropWhile_withReturns (by decide)]
  exact dropRightWhile_withReturns (by decide) _

@[simp] theorem allBlank_withReturns (text : List Char) :
    allBlank (withReturns text) = allBlank text :=
  all_withReturns (by decide) text

@[simp] theorem lineBody_withReturns (line : List Char) :
    lineBody (withReturns line) = withReturns (lineBody line) :=
  dropRightWhile_withReturns (by decide) line

@[simp] theorem lineReturn_withReturns (line : List Char) :
    lineReturn (withReturns line) = withReturns (lineReturn line) := by
  have whole := congrArg withReturns (lineBody_append_lineReturn line)
  rw [withReturns_append] at whole
  rw [lineReturn, lineBody_withReturns, ← whole, List.drop_left]

theorem map_consLine {char : Char} (other : char ≠ '\n') (parts : List (List Char)) :
    consLine char (parts.map withReturns) = (consLine char parts).map withReturns := by
  cases parts with
  | nil => simp [consLine, withReturns_cons other]
  | cons part parts => simp [consLine, withReturns_cons other]

theorem lines_withReturns {text : List Char} (free : '\r' ∉ text) :
    lines (withReturns text) = (lines text).map withReturns := by
  induction text with
  | nil => rfl
  | cons char text ih =>
      have later := ih fun member => free (by simp [member])
      have other : char ≠ '\r' := by
        rintro rfl
        exact free (by simp)
      rw [lines_cons fun same => absurd same other]
      by_cases feed : char = '\n'
      · subst feed
        rw [withReturns_feed, lines, later, if_pos (by decide)]
        rfl
      · rw [withReturns_cons feed, lines_cons fun same => absurd same other, later]
        split
        · simp [withReturns_cons feed]
        · exact map_consLine feed _

theorem physicalLines_withReturns (text : List Char) :
    physicalLines (withReturns text) = (physicalLines text).map withReturns := by
  induction text with
  | nil => rfl
  | cons char text ih =>
      by_cases feed : char = '\n'
      · subst feed
        simp [physicalLines, consLine, ih]
      · rw [withReturns_cons feed, physicalLines, if_neg feed, physicalLines, if_neg feed, ih,
          map_consLine feed]

theorem afterWord?_withReturns {word text : List Char} (bare : '\r' ∉ word ∧ '\n' ∉ word)
    (free : '\r' ∉ text) :
    afterWord? word (withReturns text) = (afterWord? word text).map withReturns := by
  unfold afterWord?
  rw [isPrefixOf_withReturns bare free]
  split
  next starts =>
    obtain ⟨rest, rfl⟩ := List.isPrefixOf_iff_prefix.mp starts
    rw [withReturns_append, withReturns_of_free bare.2, List.drop_left, List.drop_left]
    rfl
  next => rfl

structure Reads (keeps : List Char → Prop) (ending : List Char → Option (List Char)) : Prop where
  missed : ∀ text, '\r' ∉ text → ending text = none → ending (withReturns text) = none
  found : ∀ text rest, '\r' ∉ text → ending text = some rest → keeps rest →
    ending (withReturns text) = some (withReturns rest)
  feed : ∀ text, '\r' ∉ text → ending ('\n' :: text) = none →
    ending ('\n' :: withReturns text) = none

namespace Reads

variable {keeps : List Char → Prop} {ending : List Char → Option (List Char)}

theorem splitWhere?_missed (reads : Reads keeps ending) {text : List Char} (free : '\r' ∉ text)
    (missed : splitWhere? ending text = none) : splitWhere? ending (withReturns text) = none := by
  induction text with
  | nil => exact missed
  | cons char text ih =>
      have other : '\r' ∉ text := fun member => free (by simp [member])
      rw [splitWhere?] at missed
      split at missed
      next => simp at missed
      next unread =>
        have later := ih other (Option.map_eq_none_iff.mp missed)
        have alsoUnread := reads.missed _ free unread
        by_cases feed : char = '\n'
        · subst feed
          rw [withReturns_feed] at alsoUnread ⊢
          simp [splitWhere?, alsoUnread, reads.feed _ other unread, later]
        · rw [withReturns_cons feed] at alsoUnread ⊢
          simp [splitWhere?, alsoUnread, later]

theorem splitWhere?_found (reads : Reads keeps ending) {text front back : List Char}
    (free : '\r' ∉ text) (found : splitWhere? ending text = some (front, back))
    (kept : keeps back) :
    splitWhere? ending (withReturns text) = some (withReturns front, withReturns back) := by
  induction text generalizing front with
  | nil =>
      obtain ⟨rest, ended, same⟩ := Option.map_eq_some_iff.mp found
      obtain ⟨rfl, rfl⟩ := Prod.mk.inj same
      have ended' := reads.found _ _ free ended kept
      rw [withReturns_nil] at ended'
      simp [splitWhere?, ended']
  | cons char text ih =>
      have other : '\r' ∉ text := fun member => free (by simp [member])
      rw [splitWhere?] at found
      split at found
      next after ended =>
        obtain ⟨rfl, rfl⟩ := Prod.mk.inj (Option.some.inj found)
        have ended' := reads.found _ _ free ended kept
        by_cases feed : char = '\n'
        · subst feed
          rw [withReturns_feed] at ended' ⊢
          simp [splitWhere?, ended']
        · rw [withReturns_cons feed] at ended' ⊢
          simp [splitWhere?, ended']
      next unread =>
        obtain ⟨⟨front', back'⟩, later, same⟩ := Option.map_eq_some_iff.mp found
        obtain ⟨rfl, rfl⟩ := Prod.mk.inj same
        have later' := ih other later
        have alsoUnread := reads.missed _ free unread
        by_cases feed : char = '\n'
        · subst feed
          rw [withReturns_feed] at alsoUnread ⊢
          simp [splitWhere?, alsoUnread, reads.feed _ other unread, later']
        · rw [withReturns_cons feed] at alsoUnread ⊢
          simp [splitWhere?, alsoUnread, later', withReturns_cons feed]

end Reads

theorem reads_afterWord? {word : List Char} (notNil : word ≠ []) (bare : '\r' ∉ word ∧ '\n' ∉ word) :
    Reads (fun _ => True) (afterWord? word) where
  missed text free missed := by rw [afterWord?_withReturns bare free, missed]; rfl
  found text rest free found _ := by rw [afterWord?_withReturns bare free, found]; rfl
  feed text _ _ := by
    obtain ⟨first, word, rfl⟩ := List.exists_cons_of_ne_nil notNil
    have other : first ≠ '\n' := by
      rintro rfl
      exact bare.2 (by simp)
    simp [afterWord?, other]

theorem splitAtFirst?_withReturns {needle text : List Char} (notNil : needle ≠ [])
    (bare : '\r' ∉ needle ∧ '\n' ∉ needle) (free : '\r' ∉ text) :
    splitAtFirst? needle (withReturns text) =
      (splitAtFirst? needle text).map (Prod.map withReturns withReturns) := by
  have reads := reads_afterWord? notNil bare
  unfold splitAtFirst?
  cases found : splitWhere? (afterWord? needle) text with
  | none => exact reads.splitWhere?_missed free found
  | some parts => exact reads.splitWhere?_found free found trivial

end DollarMath.Text
