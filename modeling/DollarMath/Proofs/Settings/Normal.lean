import DollarMath.Proofs.Results
import DollarMath.Proofs.Settings.KeyCase
import DollarMath.Proofs.Settings.Sections

/-!
Sections with their switches under normal keys. Of the members whose keys become one the last gives
the value, and a section whose keys are the names of switches is normal.
-/

namespace DollarMath.Settings

variable {switches members normal : Section} {key name : Scalar} {value : Value}

def normalName : Scalar → Scalar
  | .text key => .text (KeyCase.snake key)
  | .malformed key => .malformed (KeyCase.snake key)
  | key => key

def lastNamed? (name : Scalar) : Section → Option Value
  | [] => none
  | member :: rest =>
    (lastNamed? name rest).or (if normalName member.1 = name then some member.2 else none)

theorem normalKey_eq_ok {found : Scalar} :
    normalKey key = .ok found ↔ key.isText = true ∧ found = normalName key := by
  cases key <;> simp [normalKey, normalName, Scalar.isText, Scalar.text?, eq_comm]

def renamed (switches : Section) : List (Scalar × Value) :=
  switches.map fun member => (normalName member.1, member.2)

theorem normalSwitches_eq_ok :
    normalSwitches switches = .ok normal ↔
      (∀ member ∈ switches, member.1.isText = true) ∧
        Section.ofPairs (renamed switches) = normal := by
  have step (member pair : Scalar × Value) :
      (normalKey member.1).map (fun key => (key, member.2)) = .ok pair ↔
        member.1.isText = true ∧ (normalName member.1, member.2) = pair := by
    simp only [map_eq_ok, normalKey_eq_ok]
    constructor
    · rintro ⟨_, ⟨isText, rfl⟩, rfl⟩
      exact ⟨isText, rfl⟩
    · rintro ⟨isText, rfl⟩
      exact ⟨_, ⟨isText, rfl⟩, rfl⟩
  rw [normalSwitches, map_eq_ok]
  simp only [mapM_eq_ok step]
  constructor
  · rintro ⟨_, ⟨texts, rfl⟩, rfl⟩
    exact ⟨texts, rfl⟩
  · rintro ⟨texts, rfl⟩
    exact ⟨_, ⟨texts, rfl⟩, rfl⟩

theorem get?_ofPairs_renamed (name : Scalar) (switches : Section) :
    (Section.ofPairs (renamed switches)).get? name = lastNamed? name switches := by
  have laid : ∀ start : Section, ((renamed switches).foldl
      (fun members pair => Section.put pair.1 pair.2 members) start).get? name =
        (lastNamed? name switches).or (start.get? name) := by
    induction switches with
    | nil => intro start; rfl
    | cons member rest ih =>
        intro start
        rw [renamed, List.map_cons, List.foldl_cons, ← renamed, ih, Section.get?_put, lastNamed?]
        by_cases same : name = normalName member.1
        · simp [same]
        · simp [same, Ne.symm same]
  have whole := laid []
  rwa [Section.get?_nil, Option.or_none] at whole

theorem lastNamed?_append (name : Scalar) (front back : Section) :
    lastNamed? name (front ++ back) = (lastNamed? name back).or (lastNamed? name front) := by
  induction front with
  | nil => simp [lastNamed?]
  | cons member front ih => rw [List.cons_append, lastNamed?, ih, lastNamed?, Option.or_assoc]

theorem lastNamed?_eq_none_iff :
    lastNamed? name members = none ↔ ∀ member ∈ members, normalName member.1 ≠ name := by
  induction members with
  | nil => simp [lastNamed?]
  | cons member rest ih =>
      rw [lastNamed?, Option.or_eq_none_iff, ih, List.forall_mem_cons, and_comm]
      simp

theorem lastNamed?_eq_some_iff :
    lastNamed? name members = some value ↔
      ∃ front key back, members = front ++ (key, value) :: back ∧ normalName key = name ∧
        ∀ member ∈ back, normalName member.1 ≠ name := by
  induction members with
  | nil => simp [lastNamed?]
  | cons member rest ih =>
      constructor
      · intro found
        rw [lastNamed?, Option.or_eq_some_iff, ih] at found
        rcases found with ⟨front, key, back, rfl, later⟩ | ⟨noneLater, own⟩
        · exact ⟨member :: front, key, back, rfl, later⟩
        · obtain ⟨same, first⟩ := Option.ite_none_right_eq_some.mp own
          obtain rfl := Option.some.inj first
          exact ⟨[], member.1, rest, rfl, same, lastNamed?_eq_none_iff.mp noneLater⟩
      · rintro ⟨front, key, back, split, same, others⟩
        rw [split, lastNamed?_append, lastNamed?, lastNamed?_eq_none_iff.mpr others, if_pos same]
        rfl

theorem normalName_eq_text_iff {text : String} :
    normalName key = .text text ↔ ∃ spelled, key = .text spelled ∧ KeyCase.snake spelled = text := by
  cases key <;> simp [normalName]

theorem lastNamed?_put_of_ne (other : normalName key ≠ name) (value : Value) (members : Section) :
    lastNamed? name (members.put key value) = lastNamed? name members := by
  induction members with
  | nil => simp [Section.put, lastNamed?, other]
  | cons member rest ih =>
      rw [Section.put]
      split
      next here => simp [lastNamed?, here, other]
      next => rw [lastNamed?, lastNamed?, ih]

def Shadowed (key : Scalar) (switches : Section) : Prop :=
  ∃ front old back, switches = front ++ (key, old) :: back ∧
    ∃ member ∈ back, normalName member.1 = normalName key

theorem lastNamed?_put (free : ¬Shadowed key members) (value : Value) :
    lastNamed? (normalName key) (members.put key value) = some value := by
  induction members with
  | nil => simp [Section.put, lastNamed?]
  | cons member rest ih =>
      rw [Section.put]
      split
      next here =>
        have others : lastNamed? (normalName key) rest = none := by
          rw [lastNamed?_eq_none_iff]
          intro later inside same
          exact free ⟨[], member.2, rest, by rw [← here]; rfl, later, inside, same⟩
        simp [lastNamed?, others]
      next =>
        have free' : ¬Shadowed key rest := by
          rintro ⟨front, old, back, rfl, later⟩
          exact free ⟨member :: front, old, back, rfl, later⟩
        rw [lastNamed?, ih free']
        rfl

/-- A value that is put where a later member has the same normal key is not the value of any. -/
theorem lastNamed?_put_of_shadowed (distinct : (Section.keys members).Nodup)
    (shadowed : Shadowed key members) (name : Scalar) (value : Value) :
    lastNamed? name (members.put key value) = lastNamed? name members := by
  by_cases own : normalName key = name
  · obtain ⟨front, old, back, rfl, later, inside, same⟩ := shadowed
    have fresh : key ∉ Section.keys front := by
      rw [Section.keys, List.map_append, List.nodup_append] at distinct
      intro again
      exact distinct.2.2 key again key (by simp) rfl
    obtain ⟨last, found⟩ : ∃ last, lastNamed? name back = some last := by
      refine Option.ne_none_iff_exists'.mp fun unnamed => ?_
      exact lastNamed?_eq_none_iff.mp unnamed later inside (same.trans own)
    have put : Section.put key value (front ++ (key, old) :: back) =
        front ++ (key, value) :: back := by
      clear distinct
      induction front with
      | nil => simp [Section.put]
      | cons member front ih =>
          obtain ⟨apart, others⟩ := not_or.mp (List.mem_cons.not.mp fresh)
          rw [List.cons_append, Section.put, if_neg (Ne.symm apart), ih others]
          rfl
    simp [put, lastNamed?_append, lastNamed?, found]
  · exact lastNamed?_put_of_ne own value members

theorem normalName_name (switch : Switch) :
    normalName (.text switch.name) = .text switch.name := by
  rw [normalName, KeyCase.snake_name]

theorem eq_name_of_normalName {switch : Switch}
    (same : normalName (normalName key) = .text switch.name) :
    normalName key = .text switch.name := by
  cases key with
  | text key =>
      simp only [normalName, Scalar.text.injEq] at same ⊢
      exact KeyCase.eq_name_of_snake_snake same
  | malformed key => simp [normalName] at same
  | _ => exact same

theorem normalName_ne_camel (key : Scalar) (switch : Switch) (text : key.isText = true) :
    normalName key ≠ .text (KeyCase.camel switch.name) := by
  cases key with
  | text key =>
      rw [normalName, Ne, Scalar.text.injEq]
      exact KeyCase.snake_ne_camel key switch
  | malformed key => simp [normalName]
  | _ => simp [Scalar.isText, Scalar.text?] at text

/-- A section of switches under their names is as it would be under normal keys. -/
theorem ofPairs_renamed_of_names (distinct : (Section.keys members).Nodup)
    (names : ∀ member ∈ members, ∃ switch : Switch, member.1 = .text switch.name) :
    Section.ofPairs (renamed members) = members := by
  have same : renamed members = members := by
    conv_rhs => rw [← List.map_id members]
    refine List.map_congr_left fun member inside => ?_
    obtain ⟨switch, isName⟩ := names member inside
    rw [isName, normalName_name, ← isName]
    rfl
  rw [same, Section.ofPairs_of_nodup distinct]

theorem normalizeKeys_eq_ok :
    normalizeKeys members = .ok normal ↔
      (∃ switches, members.get? "conversion" = some (.mapping switches) ∧
        (∀ member ∈ switches, member.1.isText = true) ∧
        normal = members.put "conversion" (.mapping (Section.ofPairs (renamed switches)))) ∨
      ((∀ switches, members.get? "conversion" ≠ some (.mapping switches)) ∧ normal = members) := by
  rw [normalizeKeys]
  split
  next switches found =>
    simp only [map_eq_ok, normalSwitches_eq_ok]
    constructor
    · rintro ⟨_, ⟨texts, rfl⟩, rfl⟩
      exact .inl ⟨switches, found, texts, rfl⟩
    · rintro (⟨other, again, texts, rfl⟩ | ⟨noSwitches, _⟩)
      · obtain rfl : switches = other := by simpa [found] using again
        exact ⟨_, ⟨texts, rfl⟩, rfl⟩
      · exact absurd found (noSwitches switches)
  next other =>
    constructor
    · intro same
      exact .inr ⟨fun switches found => other switches found, (Except.ok.inj same).symm⟩
    · rintro (⟨switches, found, _⟩ | ⟨_, rfl⟩)
      · exact absurd found (other switches)
      · rfl

section Normalized

variable (read : normalizeKeys members = .ok normal)
include read

theorem get?_of_normalizeKeys (other : key ≠ "conversion") : normal.get? key = members.get? key := by
  obtain ⟨switches, _, _, rfl⟩ | ⟨_, rfl⟩ := normalizeKeys_eq_ok.mp read
  · rw [Section.get?_put, if_neg other]
  · rfl

theorem mem_keys_of_normalizeKeys : key ∈ Section.keys normal ↔ key ∈ Section.keys members := by
  obtain ⟨switches, found, _, rfl⟩ | ⟨_, rfl⟩ := normalizeKeys_eq_ok.mp read
  · rw [Section.mem_keys_put, or_iff_right_of_imp]
    rintro rfl
    by_contra fresh
    rw [Section.get?_eq_none_iff.mpr fresh] at found
    simp at found
  · rfl

theorem nodup_of_normalizeKeys (distinct : (Section.keys members).Nodup) :
    (Section.keys normal).Nodup := by
  obtain ⟨switches, _, _, rfl⟩ | ⟨_, rfl⟩ := normalizeKeys_eq_ok.mp read
  · exact Section.nodup_put distinct
  · exact distinct

theorem inner_conversion_of_normalizeKeys :
    normal.inner "conversion" = Section.ofPairs (renamed (members.inner "conversion")) := by
  obtain ⟨switches, found, _, rfl⟩ | ⟨other, rfl⟩ := normalizeKeys_eq_ok.mp read
  · rw [Section.inner, Section.get?_put, if_pos rfl, Section.inner, found]
  · rw [Section.inner]
    split
    next switches found => exact absurd found (other switches)
    next => rfl

end Normalized

end DollarMath.Settings
