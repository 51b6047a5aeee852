import DollarMath.Text.Group

/-!
Where a group of brackets closes: what each character does to the search for it, and that neither
text after the group nor a group at the end of it matters.
-/

namespace DollarMath

namespace Text

section ClosingOffset

variable {opening closing : Char} {depth : Nat} {rest : List Char}

@[simp] theorem closingOffset?_escaped (char : Char) :
    closingOffset? opening closing depth ('\\' :: char :: rest) =
      (closingOffset? opening closing depth rest).map (· + 2) := by
  rw [closingOffset?.eq_def]
  simp

theorem closingOffset?_opening (bare : opening ≠ '\\') :
    closingOffset? opening closing depth (opening :: rest) =
      (closingOffset? opening closing (depth + 1) rest).map (· + 1) := by
  rw [closingOffset?.eq_def]
  simp [bare]

theorem closingOffset?_closing (bare : closing ≠ '\\') (differ : closing ≠ opening) :
    closingOffset? opening closing 0 (closing :: rest) = some 0 := by
  rw [closingOffset?.eq_def]
  simp [bare, differ]

theorem closingOffset?_inner (bare : closing ≠ '\\') (differ : closing ≠ opening) :
    closingOffset? opening closing (depth + 1) (closing :: rest) =
      (closingOffset? opening closing depth rest).map (· + 1) := by
  rw [closingOffset?.eq_def]
  simp [bare, differ]

theorem closingOffset?_plain {char : Char} (bare : char ≠ '\\') (notOpening : char ≠ opening)
    (notClosing : char ≠ closing) :
    closingOffset? opening closing depth (char :: rest) =
      (closingOffset? opening closing depth rest).map (· + 1) := by
  rw [closingOffset?.eq_def]
  simp [bare, notOpening, notClosing]

/-- Where a group closes depends on nothing after it. -/
theorem closingOffset?_eq_some {size : Nat} {text : List Char}
    (found : closingOffset? opening closing depth text = some size) :
    ∃ inside rest, text = inside ++ closing :: rest ∧ inside.length = size ∧
      ∀ other, closingOffset? opening closing depth (inside ++ closing :: other) = some size := by
  fun_induction closingOffset? opening closing depth text generalizing size with
  | case1 => simp at found
  | case2 => simp at found
  | case3 depth next later ih =>
      obtain ⟨inner, foundLater, rfl⟩ := Option.map_eq_some_iff.mp found
      obtain ⟨inside, rest, rfl, rfl, alone⟩ := ih foundLater
      exact ⟨'\\' :: next :: inside, rest, rfl, rfl, by simp [alone]⟩
  | case4 depth rest bare ih =>
      obtain ⟨inner, foundLater, rfl⟩ := Option.map_eq_some_iff.mp found
      obtain ⟨inside, after, rfl, rfl, alone⟩ := ih foundLater
      exact ⟨opening :: inside, after, rfl, rfl, by simp [closingOffset?_opening bare, alone]⟩
  | case5 rest bare differ =>
      simp only [Option.some.injEq] at found
      exact ⟨[], rest, rfl, found, by simp [closingOffset?_closing bare differ, ← found]⟩
  | case6 rest depth bare differ ih =>
      obtain ⟨inner, foundLater, rfl⟩ := Option.map_eq_some_iff.mp found
      obtain ⟨inside, after, rfl, rfl, alone⟩ := ih foundLater
      exact ⟨closing :: inside, after, rfl, rfl,
        by simp [closingOffset?_inner bare differ, alone]⟩
  | case7 depth char rest bare notOpening notClosing ih =>
      obtain ⟨inner, foundLater, rfl⟩ := Option.map_eq_some_iff.mp found
      obtain ⟨inside, after, rfl, rfl, alone⟩ := ih foundLater
      exact ⟨char :: inside, after, rfl, rfl,
        by simp [closingOffset?_plain bare notOpening notClosing, alone]⟩

theorem closingOffset?_append {text : List Char} {depth : Nat}
    (plain : ∀ char ∈ text, char ≠ '\\' ∧ char ≠ opening ∧ char ≠ closing) (rest : List Char) :
    closingOffset? opening closing depth (text ++ rest) =
      (closingOffset? opening closing depth rest).map (· + text.length) := by
  induction text with
  | nil => simp
  | cons char text ih =>
      obtain ⟨bare, notOpening, notClosing⟩ := plain char (by simp)
      rw [List.cons_append, closingOffset?_plain bare notOpening notClosing,
        ih fun other member => plain other (by simp [member]), Option.map_map]
      rfl

theorem closingOffset?_group {lead inside : List Char} (bare : lead.getLast? ≠ some '\\')
    (bareOpening : opening ≠ '\\') (bareClosing : closing ≠ '\\') (differ : closing ≠ opening)
    (plain : ∀ char ∈ inside, char ≠ '\\' ∧ char ≠ opening ∧ char ≠ closing) (depth : Nat) :
    closingOffset? opening closing depth (lead ++ opening :: (inside ++ [closing])) ≠
      some (lead ++ opening :: inside).length := by
  induction count : lead.length using Nat.strongRecOn generalizing lead depth with
  | _ size ih =>
      cases lead with
      | nil =>
          rw [List.nil_append, closingOffset?_opening bareOpening, closingOffset?_append plain,
            closingOffset?_inner bareClosing differ]
          simp [closingOffset?]
      | cons char lead =>
          have tail : lead.getLast? ≠ some '\\' := by
            intro last
            rw [List.getLast?_cons, last] at bare
            exact bare rfl
          have step (deeper : Nat) := ih lead.length (by simp [← count]) tail deeper rfl
          rw [List.cons_append]
          by_cases escape : char = '\\'
          · subst escape
            cases lead with
            | nil => exact absurd rfl bare
            | cons next lead =>
                have later : lead.getLast? ≠ some '\\' := by
                  intro last
                  rw [List.getLast?_cons, last] at tail
                  exact tail rfl
                have shorter : lead.length < size := by
                  rw [← count, List.length_cons, List.length_cons]
                  omega
                have escaped := ih lead.length shorter later depth rfl
                rw [List.cons_append, closingOffset?_escaped]
                simpa using escaped
          by_cases opens : char = opening
          · subst opens
            rw [closingOffset?_opening bareOpening]
            simpa using step (depth + 1)
          by_cases closes : char = closing
          · subst closes
            cases depth with
            | zero =>
                rw [closingOffset?_closing bareClosing differ]
                simp
            | succ depth =>
                rw [closingOffset?_inner bareClosing differ]
                simpa using step depth
          · rw [closingOffset?_plain escape opens closes]
            simpa using step depth

end ClosingOffset

def Encloses (opening closing : Char) (inside : List Char) : Prop :=
  closingOffset? opening closing 0 (inside ++ [closing]) = some inside.length

/-- Each group lies between its two brackets, and all groups lie apart from each other. -/
theorem apart_groupsFrom (opening closing : Char) (offset : Nat) (text : List Char) :
    (∀ group ∈ groupsFrom opening closing offset text,
      offset ≤ group.1 ∧ group.1 < group.2 ∧ group.2 < offset + text.length) ∧
      (groupsFrom opening closing offset text).Pairwise fun first second => first.2 < second.1 := by
  fun_induction groupsFrom opening closing offset text with
  | case1 => exact ⟨by simp, .nil⟩
  | case2 offset rest ih =>
      refine ⟨fun group member => ?_, ih.2⟩
      have bounds := ih.1 group member
      simp only [List.length_drop, List.length_cons] at bounds ⊢
      omega
  | case3 offset rest size found _ ih =>
      obtain ⟨inside, later, rfl, rfl, _⟩ := closingOffset?_eq_some found
      refine ⟨fun group member => ?_, List.pairwise_cons.mpr ⟨fun group member => ?_, ih.2⟩⟩
      · rcases List.mem_cons.mp member with rfl | others
        · simp only [List.length_append, List.length_cons]
          omega
        · have bounds := ih.1 group others
          simp only [List.length_drop, List.length_append, List.length_cons] at bounds ⊢
          omega
      · have start := (ih.1 group member).1
        dsimp only
        omega
  | case4 offset rest _ _ ih =>
      refine ⟨fun group member => ?_, ih.2⟩
      have bounds := ih.1 group member
      rw [List.length_cons]
      omega
  | case5 offset char rest _ _ ih =>
      refine ⟨fun group member => ?_, ih.2⟩
      have bounds := ih.1 group member
      rw [List.length_cons]
      omega

theorem afterGroup?_eq_some {opening closing : Char} {text rest : List Char}
    (found : afterGroup? opening closing text = some rest) :
    ∃ inside, text = opening :: inside ++ closing :: rest := by
  obtain ⟨stop, closed, rfl⟩ := Option.map_eq_some_iff.mp found
  unfold findClosing? at closed
  split at closed
  next opened =>
    obtain ⟨size, offset, rfl⟩ := Option.map_eq_some_iff.mp closed
    obtain ⟨inside, after, insideEq, rfl, _⟩ := closingOffset?_eq_some offset
    cases text with
    | nil => simp at opened
    | cons first text =>
        simp only [List.getElem?_cons_zero, Option.some.injEq] at opened
        simp only [Nat.zero_add, List.drop_succ_cons, List.drop_zero] at insideEq
        subst opened insideEq
        refine ⟨inside, ?_⟩
        simp
  next => simp at closed

end Text

end DollarMath
