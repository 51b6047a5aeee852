import DollarMath.Editor

/-!
Runs of pastes into a buffer. The first text that is inserted takes the place of the selection, and
each later one follows the one before it.
-/

namespace DollarMath

/-- A paste, with the options that hold for it: an event that leaves open whether the text is to be
converted, or a command to insert it converted. -/
inductive Paste where
  | event (options : Options) (pasted : List Char)
  | command (options : Options) (pasted : List Char)

namespace Buffer

structure IsPlaced (buffer : Buffer) : Prop where
  start : 0 ≤ buffer.selectionStart
  order : buffer.selectionStart ≤ buffer.selectionEnd
  stop : buffer.selectionEnd ≤ buffer.text.length

structure Selects (before selected after : List Char) (buffer : Buffer) : Prop where
  textEq : buffer.text = before ++ (selected ++ after)
  startEq : buffer.selectionStart = before.length
  stopEq : buffer.selectionEnd = before.length + selected.length

def caret (before after : List Char) : Buffer :=
  ⟨before ++ after, before.length, before.length⟩

def receive (buffer : Buffer) : Paste → Bool × Buffer
  | .event options pasted => buffer.paste options pasted
  | .command options pasted => (true, buffer.pasteConverted options pasted)

def receiveAll (buffer : Buffer) : List Paste → List Bool × Buffer
  | [] => ([], buffer)
  | paste :: pastes =>
    let (inserted, next) := buffer.receive paste
    let (others, last) := next.receiveAll pastes
    (inserted :: others, last)

end Buffer

/-- What a paste inserts, if anything: the text converted. On an event it does so if pasted texts
are to be converted and this one is neither empty nor, stripped, a mere link. -/
def Paste.inserted? : Paste → Option (List Char)
  | event options pasted =>
    if options.pasteConversion = true ∧ pasted ≠ [] ∧ Link.isBlob (Text.strip pasted) = false then
      some (convert options pasted)
    else none
  | command options pasted => some (convert options pasted)

namespace Buffer

variable {buffer : Buffer} {before selected after : List Char}

theorem offset_of_le {length place : Nat} (inside : place ≤ length) :
    offset length place = place := by
  rw [offset, if_neg (by omega), Int.toNat_natCast, Nat.min_eq_left inside]

theorem selects_caret (before after : List Char) : (caret before after).Selects before [] after :=
  ⟨rfl, rfl, rfl⟩

theorem IsPlaced.selects (placed : buffer.IsPlaced) :
    ∃ selected, buffer.Selects (buffer.text.take buffer.selectionStart.toNat) selected
      (buffer.text.drop buffer.selectionEnd.toNat) := by
  obtain ⟨text, start, stop⟩ := buffer
  obtain ⟨first, order, last⟩ := placed
  dsimp only at first order last ⊢
  obtain ⟨start, rfl⟩ := Int.eq_ofNat_of_zero_le first
  obtain ⟨size, rfl⟩ := Int.le.dest order
  have whole :
      text = text.take start ++ ((text.drop start).take size ++ text.drop (start + size)) := by
    rw [← List.drop_drop, List.take_append_drop, List.take_append_drop]
  refine ⟨(text.drop start).take size, whole, ?_, ?_⟩
  · simp only [List.length_take]
    omega
  · simp only [List.length_take, List.length_drop]
    omega

theorem Selects.replaceSelection (selects : buffer.Selects before selected after)
    (inserted : List Char) :
    buffer.replaceSelection inserted = caret (before ++ inserted) after := by
  have first : offset buffer.text.length buffer.selectionStart = before.length := by
    rw [selects.startEq]
    exact offset_of_le (by simp [selects.textEq])
  have last : offset buffer.text.length buffer.selectionEnd = (before ++ selected).length := by
    rw [selects.stopEq, ← Int.natCast_add, ← List.length_append]
    exact offset_of_le (by simp [selects.textEq, ← Nat.add_assoc])
  rw [Buffer.replaceSelection, caret]
  simp only [first, last]
  rw [selects.textEq, selects.startEq, List.take_left, ← List.append_assoc before, List.drop_left,
    List.length_append, Int.natCast_add]

theorem paste_eq (buffer : Buffer) (options : Options) (pasted : List Char) :
    buffer.paste options pasted =
      match (Paste.event options pasted).inserted? with
      | none => (false, buffer)
      | some inserted => (true, buffer.replaceSelection inserted) := by
  have converts : convertsPaste options pasted = true ↔ options.pasteConversion = true ∧
      pasted ≠ [] ∧ Link.isBlob (Text.strip pasted) = false := by
    simp [convertsPaste, and_assoc]
  rw [paste, Paste.inserted?]
  simp only [converts]
  split <;> rfl

theorem receive_eq (buffer : Buffer) (paste : Paste) :
    buffer.receive paste =
      match paste.inserted? with
      | none => (false, buffer)
      | some inserted => (true, buffer.replaceSelection inserted) := by
  cases paste with
  | event options pasted => exact paste_eq buffer options pasted
  | command options pasted => rfl

/-- Each text that is inserted comes to stand before the selection, which is empty from then on, so
that all the texts of a run stand there in order. -/
theorem Selects.receiveAll (selects : buffer.Selects before selected after) (pastes : List Paste) :
    buffer.receiveAll pastes =
      (pastes.map fun paste => paste.inserted?.isSome,
        if pastes.filterMap Paste.inserted? = [] then buffer
        else caret (before ++ (pastes.filterMap Paste.inserted?).flatten) after) := by
  induction pastes generalizing buffer before selected with
  | nil => rfl
  | cons paste pastes ih =>
      rw [Buffer.receiveAll, receive_eq]
      cases own : paste.inserted? with
      | none => simp [own, ih selects]
      | some inserted =>
          have later := ih (selects_caret (before ++ inserted) after)
          rw [← selects.replaceSelection inserted] at later
          simp only [own, later, List.map_cons, Option.isSome_some, List.filterMap_cons_some own,
            List.flatten_cons, reduceCtorEq, if_false, ← List.append_assoc]
          split
          next noneLater => simp [noneLater, selects.replaceSelection]
          next => rfl

/-- A run of pastes replaces the selection once, by all the texts inserted, one after the other, and
the next text would go right after the last of them. An event inserts its text exactly if it is
answered with yes. -/
theorem receiveAll_inserts (placed : buffer.IsPlaced) (pastes : List Paste) :
    let inserted := pastes.filterMap Paste.inserted?
    buffer.receiveAll pastes =
        (pastes.map fun paste => paste.inserted?.isSome,
          if inserted = [] then buffer
          else caret (buffer.text.take buffer.selectionStart.toNat ++ inserted.flatten)
            (buffer.text.drop buffer.selectionEnd.toNat)) ∧
      ∀ (other : Buffer) (options : Options) (pasted : List Char),
        ((other.paste options pasted).1 = true ↔ options.pasteConversion = true ∧ pasted ≠ [] ∧
          Link.isBlob (Text.strip pasted) = false) ∧
        (other.paste options pasted).2 =
          if (other.paste options pasted).1 = true then
            other.replaceSelection (convert options pasted)
          else other := by
  obtain ⟨selected, selects⟩ := placed.selects
  refine ⟨selects.receiveAll pastes, fun other options pasted => ?_⟩
  rw [paste_eq, Paste.inserted?]
  split <;> simp_all

theorem receiveAll_inserts_link :
    let buffer : Buffer := ⟨"a[b]c".toList, 1, 4⟩
    let pastes : List Paste := [.event {} " https://a.b/c".toList, .event {} "\\(x\\)".toList,
      .command { pasteConversion := false } "y".toList]
    buffer.IsPlaced ∧
      buffer.receiveAll pastes = ([false, true, true], ⟨"a$x$yc".toList, 5, 5⟩) := by
  intro buffer pastes
  have placed : buffer.IsPlaced := ⟨by decide, by decide, by decide⟩
  have inserted : pastes.filterMap Paste.inserted? = ["$x$".toList, "y".toList] := by
    decide +kernel
  have run := (receiveAll_inserts placed pastes).1
  rw [inserted] at run
  refine ⟨placed, run.trans (Prod.ext ?_ (by decide))⟩
  decide +kernel

end Buffer

end DollarMath
