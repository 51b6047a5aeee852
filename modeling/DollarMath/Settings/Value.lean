import DollarMath.Settings.Scalar

/-!
The values that settings are written in, and sections of them: members in the order in which they
were first written.
-/

namespace DollarMath

inductive Value where
  | scalar (value : Scalar)
  | list (items : List Value)
  | set (items : List Scalar)
  | mapping (members : List (Scalar × Value))
deriving Repr, Inhabited

namespace Value

@[match_pattern] abbrev null : Value := scalar .null

@[match_pattern] abbrev bool (value : Bool) : Value := scalar (.bool value)

@[match_pattern] abbrev int (value : Int) : Value := scalar (.int value)

@[match_pattern] abbrev real (value : Binary64) : Value := scalar (.real value)

@[match_pattern] abbrev text (value : String) : Value := scalar (.text value)

mutual

def decEq : (first second : Value) → Decidable (first = second)
  | .scalar first, .scalar second => decidable_of_iff (first = second) (by simp)
  | .set first, .set second => decidable_of_iff (first = second) (by simp)
  | .list first, .list second =>
    match decEqItems first second with
    | .isTrue same => .isTrue (by rw [same])
    | .isFalse differ => .isFalse (by simpa using differ)
  | .mapping first, .mapping second =>
    match decEqMembers first second with
    | .isTrue same => .isTrue (by rw [same])
    | .isFalse differ => .isFalse (by simpa using differ)
  | .scalar _, .list _ | .scalar _, .set _ | .scalar _, .mapping _
  | .list _, .scalar _ | .list _, .set _ | .list _, .mapping _
  | .set _, .scalar _ | .set _, .list _ | .set _, .mapping _
  | .mapping _, .scalar _ | .mapping _, .list _ | .mapping _, .set _ => .isFalse nofun

def decEqItems : (first second : List Value) → Decidable (first = second)
  | [], [] => .isTrue rfl
  | [], _ :: _ | _ :: _, [] => .isFalse nofun
  | first :: firsts, second :: seconds =>
    match decEq first second, decEqItems firsts seconds with
    | .isTrue head, .isTrue tail => .isTrue (by rw [head, tail])
    | .isFalse head, _ => .isFalse (by simp [head])
    | _, .isFalse tail => .isFalse (by simp [tail])

def decEqMembers : (first second : List (Scalar × Value)) → Decidable (first = second)
  | [], [] => .isTrue rfl
  | [], _ :: _ | _ :: _, [] => .isFalse nofun
  | first :: firsts, second :: seconds =>
    match decEqMember first second, decEqMembers firsts seconds with
    | .isTrue head, .isTrue tail => .isTrue (by rw [head, tail])
    | .isFalse head, _ => .isFalse (by simp [head])
    | _, .isFalse tail => .isFalse (by simp [tail])

def decEqMember : (first second : Scalar × Value) → Decidable (first = second)
  | (firstKey, first), (secondKey, second) =>
    match decEq first second with
    | .isTrue same => decidable_of_iff (firstKey = secondKey) (by simp [same])
    | .isFalse differ => .isFalse (by simp [differ])

end

instance : DecidableEq Value := decEq

end Value

abbrev Section := List (Scalar × Value)

namespace Section

def get? (members : Section) (key : Scalar) : Option Value :=
  members.lookup key

def contains (members : Section) (key : Scalar) : Bool :=
  members.any (·.1 == key)

/-- Give a key a value. A key that is there keeps its place, a new one comes last. -/
def put (key : Scalar) (value : Value) : Section → Section
  | [] => [(key, value)]
  | member :: rest =>
    if member.1 = key then (key, value) :: rest else member :: put key value rest

def find? (members : Section) (key : Scalar) : Option Value :=
  (List.find? (·.1.sameKey key) members).map Prod.snd

/-- Give a key a value. A key that counts as the same keeps its place and its spelling. -/
def assign (key : Scalar) (value : Value) : Section → Section
  | [] => [(key, value)]
  | member :: rest =>
    if member.1.sameKey key then (member.1, value) :: rest else member :: assign key value rest

def ofPairs (pairs : List (Scalar × Value)) : Section :=
  pairs.foldl (fun members pair => put pair.1 pair.2 members) []

theorem get?_put (key other : Scalar) (value : Value) (members : Section) :
    (put key value members).get? other =
      if other = key then some value else members.get? other := by
  induction members with
  | nil =>
    by_cases same : other = key
    · simp [put, get?, same]
    · simp [put, get?, List.lookup_cons, same, beq_eq_false_iff_ne.2 same]
  | cons member rest ih =>
    obtain ⟨name, held⟩ := member
    unfold get? at ih ⊢
    unfold put
    by_cases here : name = key
    · subst here
      simp only [↓reduceIte, List.lookup_cons]
      by_cases same : other = name
      · simp [same]
      · simp [same, beq_eq_false_iff_ne.2 same]
    · simp only [here, ↓reduceIte, List.lookup_cons]
      by_cases same : other = name
      · subst same
        simp [here]
      · simp [beq_eq_false_iff_ne.2 same, ih]

end Section

namespace Value

def kindName : Value → String
  | scalar value => value.kindName
  | list _ => "list"
  | set _ => "set"
  | mapping _ => "dict"

def isEmpty : Value → Bool
  | scalar value => value.isEmpty
  | list items => items.isEmpty
  | set items => items.isEmpty
  | mapping members => members.isEmpty

end Value

end DollarMath
