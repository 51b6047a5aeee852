import Mathlib.Data.List.Infix

/-!
Where an item or a stretch of a list lies if the list is put together from parts.
-/

namespace DollarMath

theorem append_eq_append_cons {α : Type} {first second front back : List α} {item : α}
    (same : first ++ second = front ++ item :: back) :
    (∃ rest, first = front ++ item :: rest ∧ back = rest ++ second) ∨
      ∃ rest, front = first ++ rest ∧ second = rest ++ item :: back := by
  rcases List.append_eq_append_iff.mp same with ⟨rest, frontEq, secondEq⟩ | ⟨rest, firstEq, backEq⟩
  · exact .inr ⟨rest, frontEq, secondEq⟩
  · cases rest with
    | nil =>
        simp only [List.append_nil] at firstEq
        exact .inr ⟨[], by simp [firstEq], backEq.symm⟩
    | cons next rest =>
        simp only [List.cons_append, List.cons.injEq] at backEq
        obtain ⟨rfl, rfl⟩ := backEq
        exact .inl ⟨rest, firstEq, rfl⟩

theorem exists_split_cons_iff {α : Type} {first item : α} {items : List α}
    {holds : List α → List α → Prop} :
    (∃ front back, first :: items = front ++ item :: back ∧ holds front back) ↔
      (item = first ∧ holds [] items) ∨
        ∃ front back, items = front ++ item :: back ∧ holds (first :: front) back := by
  constructor
  · rintro ⟨front, back, whole, held⟩
    cases front with
    | nil =>
        rw [List.nil_append, List.cons.injEq] at whole
        obtain ⟨rfl, rfl⟩ := whole
        exact .inl ⟨rfl, held⟩
    | cons other front =>
        rw [List.cons_append, List.cons.injEq] at whole
        obtain ⟨rfl, rfl⟩ := whole
        exact .inr ⟨front, back, rfl, held⟩
  · rintro (⟨rfl, held⟩ | ⟨front, back, rfl, held⟩)
    · exact ⟨[], items, rfl, held⟩
    · exact ⟨first :: front, back, rfl, held⟩

theorem exists_part_of_flatMap {α β : Type} {parts : List α} {items : α → List β}
    {front back : List β} {item : β} (whole : parts.flatMap items = front ++ item :: back) :
    ∃ before part after left right, parts = before ++ part :: after ∧
      items part = left ++ item :: right ∧ front = before.flatMap items ++ left := by
  induction parts generalizing front with
  | nil => simp at whole
  | cons part parts ih =>
      rw [List.flatMap_cons] at whole
      rcases append_eq_append_cons whole with ⟨right, own, _⟩ | ⟨rest, rfl, later⟩
      · exact ⟨[], part, parts, front, right, rfl, own, rfl⟩
      · obtain ⟨before, other, after, left, right, rfl, own, rfl⟩ := ih later
        exact ⟨part :: before, other, after, left, right, rfl, own, by simp⟩

/-- A stretch lies after the seam of two parts, before it, or on it. -/
theorem append_eq_around {α : Type} {first second front stretch back : List α}
    (same : first ++ second = front ++ (stretch ++ back)) :
    (∃ gap, front = first ++ gap ∧ second = gap ++ (stretch ++ back)) ∨
      (∃ trail, first = front ++ (stretch ++ trail) ∧ back = trail ++ second) ∨
      ∃ left right, stretch = left ++ right ∧ left ≠ [] ∧ right ≠ [] ∧ first = front ++ left ∧
        second = right ++ back := by
  rcases List.append_eq_append_iff.mp same with ⟨gap, frontEq, secondEq⟩ | ⟨part, rfl, whole⟩
  · exact .inl ⟨gap, frontEq, secondEq⟩
  rcases List.append_eq_append_iff.mp whole with ⟨trail, rfl, backEq⟩ | ⟨right, rfl, secondEq⟩
  · exact .inr (.inl ⟨trail, rfl, backEq⟩)
  · by_cases atStart : part = []
    · exact .inl ⟨[], by simp [atStart], by simp [atStart, secondEq]⟩
    · by_cases atEnd : right = []
      · exact .inr (.inl ⟨[], by simp [atEnd], by simp [secondEq, atEnd]⟩)
      · exact .inr (.inr ⟨part, right, rfl, atStart, atEnd, rfl, secondEq⟩)

theorem nil_of_singleton_eq {α : Type} {front rest : List α} {item other : α}
    (same : [item] = front ++ other :: rest) : rest = [] := by
  rcases List.singleton_eq_append_iff.mp same with ⟨_, tail⟩ | ⟨_, tail⟩
  · exact (List.cons.inj tail).2
  · simp at tail

theorem prefix_of_wall {α : Type} {stretch front back : List α} {wall : α}
    (found : stretch <+: front ++ wall :: back) (free : wall ∉ stretch) : stretch <+: front := by
  have upTo : front ++ [wall] <+: front ++ wall :: back := ⟨back, by simp⟩
  rcases List.prefix_or_prefix_of_prefix found upTo with short | long
  · rcases List.prefix_concat_iff.mp short with rfl | inFront
    · exact absurd (by simp) free
    · exact inFront
  · exact absurd (long.subset (by simp)) free

/-- A stretch without a certain item lies wholly before or after it. -/
theorem infix_of_wall {α : Type} {stretch front back : List α} {wall : α}
    (found : stretch <:+: front ++ wall :: back) (free : wall ∉ stretch) :
    stretch <:+: front ∨ stretch <:+: back := by
  induction front with
  | nil =>
      rcases List.infix_cons_iff.mp found with start | later
      · exact .inl (prefix_of_wall start free).isInfix
      · exact .inr later
  | cons item front ih =>
      rcases List.infix_cons_iff.mp found with start | later
      · exact .inl (prefix_of_wall start free).isInfix
      · rcases ih later with inFront | inBack
        · exact .inl (List.infix_cons inFront)
        · exact .inr inBack

theorem infix_of_walls {α : Type} {stretch front walls back : List α}
    (found : stretch <:+: front ++ (walls ++ back)) (notNil : walls ≠ [])
    (free : ∀ wall ∈ walls, wall ∉ stretch) : stretch <:+: front ∨ stretch <:+: back := by
  induction walls generalizing front with
  | nil => exact absurd rfl notNil
  | cons wall walls ih =>
      rcases infix_of_wall found (free wall (by simp)) with inFront | later
      · exact .inl inFront
      · by_cases last : walls = []
        · subst last
          exact .inr later
        · rcases @ih [] later last fun other member => free other (by simp [member]) with
            inNil | inBack
          · exact .inl (inNil.trans (List.nil_infix))
          · exact .inr inBack

def flatMapAround {α β : Type} (make : Option α → α → Option α → List β) :
    (above : Option α) → List α → List β
  | _, [] => []
  | above, item :: rest => make above item rest.head? ++ flatMapAround make (some item) rest

section Around

variable {α β γ : Type} {make make' : Option α → α → Option α → List β}

theorem mem_flatMapAround {above : Option α} {items : List α} {made : β} :
    made ∈ flatMapAround make above items ↔ ∃ front item back, items = front ++ item :: back ∧
      made ∈ make (front.getLast?.or above) item back.head? := by
  induction items generalizing above with
  | nil => simp [flatMapAround]
  | cons item rest ih =>
      rw [flatMapAround, List.mem_append, ih]
      constructor
      · rintro (own | ⟨front, other, back, rfl, found⟩)
        · exact ⟨[], item, rest, rfl, own⟩
        · refine ⟨item :: front, other, back, rfl, ?_⟩
          rw [List.getLast?_cons]
          cases last : front.getLast? with
          | none => simpa [last] using found
          | some next => simpa [last] using found
      · rintro ⟨front, other, back, whole, found⟩
        cases front with
        | nil =>
            rw [List.nil_append, List.cons.injEq] at whole
            obtain ⟨rfl, rfl⟩ := whole
            exact .inl found
        | cons first front =>
            rw [List.cons_append, List.cons.injEq] at whole
            obtain ⟨rfl, rfl⟩ := whole
            refine .inr ⟨front, other, back, rfl, ?_⟩
            rw [List.getLast?_cons] at found
            cases last : front.getLast? with
            | none => simpa [last] using found
            | some next => simpa [last] using found

theorem flatMapAround_map (change : γ → α) (above : Option γ) (items : List γ) :
    flatMapAround make (above.map change) (items.map change) =
      flatMapAround (fun above item below =>
        make (above.map change) (change item) (below.map change)) above items := by
  induction items generalizing above with
  | nil => rfl
  | cons item rest ih =>
      rw [List.map_cons, flatMapAround, flatMapAround, ← ih, List.head?_map]
      rfl

theorem flatMap_flatMapAround (change : β → List γ) (above : Option α) (items : List α) :
    (flatMapAround make above items).flatMap change =
      flatMapAround (fun above item below => (make above item below).flatMap change) above items := by
  induction items generalizing above with
  | nil => rfl
  | cons item rest ih => rw [flatMapAround, List.flatMap_append, ih, flatMapAround]

theorem flatMapAround_const (change : α → List β) (above : Option α) (items : List α) :
    flatMapAround (fun _ item _ => change item) above items = items.flatMap change := by
  induction items generalizing above with
  | nil => rfl
  | cons item rest ih => rw [flatMapAround, ih, List.flatMap_cons]

theorem flatMapAround_congr {holds : α → Prop} {above : Option α} {items : List α}
    (same : ∀ above item below, (∀ other ∈ above, holds other) → holds item →
      (∀ other ∈ below, holds other) → make above item below = make' above item below)
    (first : ∀ other ∈ above, holds other) (all : ∀ item ∈ items, holds item) :
    flatMapAround make above items = flatMapAround make' above items := by
  induction items generalizing above with
  | nil => rfl
  | cons item rest ih =>
      have own := all item (by simp)
      have others : ∀ other ∈ rest, holds other := fun other member => all other (by simp [member])
      rw [flatMapAround, flatMapAround, ih (by simpa using own) others,
        same above item rest.head? first own fun other next => others other (List.mem_of_head? next)]

end Around

end DollarMath
