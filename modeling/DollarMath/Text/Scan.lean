/-!
Searching a text from left to right for what a recogniser takes. The found pieces and the
characters between them make up the text.
-/

namespace DollarMath.Text

/-- Looks at the head of a text, knowing the character before it, and says how many characters it
takes and what it read in them. -/
abbrev Recognizer (α : Type) := Option Char → List Char → Option (Nat × α)

/-- A part of a searched text: a character that belongs to no find, or a find with the character
before it, the characters taken, what was read, and the character after it. -/
inductive Found (α : Type) where
  | gap (char : Char)
  | hit (before : Option Char) (text : List Char) (value : α) (after : Option Char)

def scan {α : Type} (recognize : Recognizer α) (before : Option Char) :
    List Char → List (Found α)
  | [] => []
  | char :: rest =>
    match recognize before (char :: rest) with
    | none => .gap char :: scan recognize (some char) rest
    | some (size, value) =>
      let taken := char :: rest.take (size - 1)
      let left := rest.drop (size - 1)
      .hit before taken value left.head? :: scan recognize taken.getLast? left
termination_by text => text.length
decreasing_by
  · simp
  · simp only [List.length_drop, List.length_cons]
    omega

namespace Found

def text {α : Type} : Found α → List Char
  | .gap char => [char]
  | .hit _ text _ _ => text

def hit? {α : Type} : Found α → Option (List Char)
  | .gap _ => none
  | .hit _ text _ _ => some text

end Found

def findAll {α : Type} (recognize : Recognizer α) (text : List Char) : List (List Char) :=
  (scan recognize none text).filterMap Found.hit?

def anywhere (test : Option Char → List Char → Bool) (before : Option Char) : List Char → Bool
  | [] => test before []
  | char :: rest => test before (char :: rest) || anywhere test (some char) rest

def afterWord? (word text : List Char) : Option (List Char) :=
  if word.isPrefixOf text then some (text.drop word.length) else none

def splitWhere? (ending : List Char → Option (List Char)) :
    List Char → Option (List Char × List Char)
  | [] => (ending []).map fun rest => ([], rest)
  | char :: rest =>
    match ending (char :: rest) with
    | some after => some ([], after)
    | none => (splitWhere? ending rest).map fun parts => (char :: parts.1, parts.2)

def splitAtFirst? (needle : List Char) : List Char → Option (List Char × List Char) :=
  splitWhere? (afterWord? needle)

@[simp] theorem flatMap_text_scan {α : Type} (recognize : Recognizer α) (before : Option Char)
    (text : List Char) : (scan recognize before text).flatMap Found.text = text := by
  fun_induction scan recognize before text with
  | case1 => rfl
  | case2 before char rest _ ih => simp [Found.text, ih]
  | case3 before char rest size value _ taken left ih =>
    simp [Found.text, ih, taken, left]

theorem afterWord?_eq_some {word text rest : List Char}
    (found : afterWord? word text = some rest) : text = word ++ rest := by
  unfold afterWord? at found
  split at found
  next starts =>
    obtain ⟨tail, rfl⟩ := List.isPrefixOf_iff_prefix.1 starts
    simpa using found
  next => simp at found

theorem splitWhere?_eq_some {ending : List Char → Option (List Char)}
    {text front back : List Char} (found : splitWhere? ending text = some (front, back)) :
    ∃ tail, text = front ++ tail ∧ ending tail = some back := by
  induction text generalizing front with
  | nil =>
    simp only [splitWhere?, Option.map_eq_some_iff, Prod.mk.injEq] at found
    obtain ⟨rest, ended, rfl, rfl⟩ := found
    exact ⟨[], rfl, ended⟩
  | cons char rest ih =>
    simp only [splitWhere?] at found
    split at found
    next after ended =>
      simp only [Option.some.injEq, Prod.mk.injEq] at found
      obtain ⟨rfl, rfl⟩ := found
      exact ⟨char :: rest, rfl, ended⟩
    next =>
      obtain ⟨⟨front, back⟩, later, same⟩ := Option.map_eq_some_iff.1 found
      simp only [Prod.mk.injEq] at same
      obtain ⟨rfl, rfl⟩ := same
      obtain ⟨tail, rfl, ended⟩ := ih later
      exact ⟨tail, rfl, ended⟩

theorem splitAtFirst?_eq_some {needle text front back : List Char}
    (found : splitAtFirst? needle text = some (front, back)) :
    text = front ++ needle ++ back := by
  obtain ⟨tail, rfl, ended⟩ := splitWhere?_eq_some found
  rw [afterWord?_eq_some ended, List.append_assoc]

end DollarMath.Text
