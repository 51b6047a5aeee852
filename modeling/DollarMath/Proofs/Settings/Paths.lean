import DollarMath.Proofs.Yaml.Distinct

/-!
What paths of keys lead to in a section that another one was laid over. To lay it over once more
changes nothing.
-/

namespace DollarMath

namespace Value

def at? : List Scalar → Value → Option Value
  | [], value => some value
  | key :: path, .mapping members => (Section.find? members key).bind (at? path)
  | _ :: _, _ => none

variable {old new value : Value} {base update : Section} {path : List Scalar}

@[simp] theorem at?_nil (value : Value) : value.at? [] = some value := by
  cases value <;> rfl

theorem at?_cons_mapping (key : Scalar) (path : List Scalar) (members : Section) :
    (mapping members).at? (key :: path) = (members.find? key).bind (at? path) := rfl

theorem at?_cons_plain (plain : ∀ members, value ≠ .mapping members) (key : Scalar)
    (path : List Scalar) : value.at? (key :: path) = none := by
  cases value with
  | mapping members => exact absurd rfl (plain members)
  | _ => rfl

/-- Wherever the path or a part of it from the start leads, a mapping is found. -/
def IsOpen (path : List Scalar) (value : Value) : Prop :=
  ∀ front, front <+: path → ∀ reached, value.at? front = some reached →
    ∃ members, reached = .mapping members

theorem not_isOpen_of_plain (plain : ∀ members, value ≠ .mapping members) : ¬value.IsOpen path := by
  intro isOpen
  obtain ⟨members, same⟩ := isOpen [] List.nil_prefix value (at?_nil value)
  exact plain members same

theorem isOpen_cons {key : Scalar} {members : Section} :
    (mapping members).IsOpen (key :: path) ↔ ∀ held, members.find? key = some held → held.IsOpen path := by
  constructor
  · intro isOpen held found front isFront reached leads
    refine isOpen (key :: front) (List.cons_prefix_cons.mpr ⟨rfl, isFront⟩) reached ?_
    rw [at?_cons_mapping, found, Option.bind_some, leads]
  · intro inner front isFront reached leads
    cases front with
    | nil => exact ⟨members, by simpa using leads.symm⟩
    | cons first front =>
        obtain ⟨rfl, shorter⟩ := List.cons_prefix_cons.mp isFront
        obtain ⟨held, found, leads⟩ := Option.bind_eq_some_iff.mp leads
        exact inner held found front shorter reached leads

theorem over_eq_iff (plain : ∀ members, value ≠ .mapping members) :
    old.over new = value ↔ new = value := by
  by_cases isMapping : ∃ update, new = .mapping update
  · obtain ⟨update, rfl⟩ := isMapping
    have laid : ∃ members, old.over (.mapping update) = .mapping members := by
      cases old with
      | mapping base => exact ⟨_, over_mapping base update⟩
      | _ => exact ⟨update, over_of_not_mapping nofun⟩
    obtain ⟨members, laid⟩ := laid
    rw [laid]
    exact ⟨fun same => absurd same.symm (plain _), fun same => absurd same.symm (plain _)⟩
  · rw [over_plain (not_exists.mp isMapping)]

/-- A path leads to what it leads to in the new value, or to what it leads to in the old one if the
new one does not have the path, nor anything else than mappings on the way. -/
theorem at?_over (distinct : new.Distinct) (plain : ∀ members, value ≠ .mapping members) :
    (old.over new).at? path = some value ↔
      new.at? path = some value ∨
        (old.at? path = some value ∧ new.at? path = none ∧ new.IsOpen path) := by
  induction path generalizing old new with
  | nil => simp [over_eq_iff plain]
  | cons key path ih =>
      by_cases newMapping : ∃ update, new = .mapping update
      · obtain ⟨update, rfl⟩ := newMapping
        cases distinct with
        | mapping apart parts =>
            by_cases oldMapping : ∃ base, old = .mapping base
            · obtain ⟨base, rfl⟩ := oldMapping
              rw [over_mapping, at?_cons_mapping, at?_cons_mapping, at?_cons_mapping, isOpen_cons,
                Section.find?_merge apart]
              cases found : Section.find? update key with
              | none => simp
              | some held =>
                  obtain ⟨member, inside, rfl⟩ := Section.exists_mem_of_find? found
                  cases Section.find? base key with
                  | none => simp [Section.laidOver]
                  | some own => simp [Section.laidOver, ih (parts _ inside)]
            · rw [over_of_not_mapping (not_exists.mp oldMapping),
                at?_cons_plain (not_exists.mp oldMapping)]
              simp
      · rw [over_plain (not_exists.mp newMapping)]
        simp [not_isOpen_of_plain (not_exists.mp newMapping)]

theorem null_over (value : Value) : null.over value = value :=
  over_of_not_mapping nofun

theorem over_over (distinct : new.Distinct) (old : Value) : (old.over new).over new = old.over new := by
  induction distinct generalizing old with
  | mapping apart parts ih =>
      next update =>
      have own {member : Scalar × Value} (inside : member ∈ update) :
          member.2.over member.2 = member.2 := by
        simpa only [null_over] using ih member inside null
      by_cases isMapping : ∃ base, old = .mapping base
      · obtain ⟨base, rfl⟩ := isMapping
        rw [over_mapping, over_mapping, Section.merge_eq_self]
        intro member inside
        rw [Section.find?_merge apart, Section.find?_of_mem apart inside]
        cases Section.find? base member.1 with
        | none => exact ⟨member.2, rfl, own inside⟩
        | some below => exact ⟨below.over member.2, rfl, ih member inside below⟩
      · rw [over_of_not_mapping (not_exists.mp isMapping), over_mapping, Section.merge_eq_self]
        exact fun member inside => ⟨member.2, Section.find?_of_mem apart inside, own inside⟩
  | _ => rfl

end Value

namespace Section

variable {base update : Section}

/-- A path of keys leads to a value in a section that another was laid over, if it leads there in the
other one; or in the section itself, if the other one does not have the path, and has mappings only
where it has a part of the path. To lay the other one over once more changes nothing. -/
theorem at?_merge (distinct : Value.Distinct (.mapping update)) :
    (∀ (path : List Scalar) (value : Value), (∀ members, value ≠ .mapping members) →
      ((Value.mapping (base.merge update)).at? path = some value ↔
        (Value.mapping update).at? path = some value ∨
          ((Value.mapping base).at? path = some value ∧
            (Value.mapping update).at? path = none ∧
              ∀ front, front ≠ [] → front <+: path → ∀ reached,
                (Value.mapping update).at? front = some reached →
                  ∃ members, reached = .mapping members))) ∧
      (base.merge update).merge update = base.merge update := by
  constructor
  · intro path value plain
    have isOpen : (Value.mapping update).IsOpen path ↔
        ∀ front, front ≠ [] → front <+: path → ∀ reached,
          (Value.mapping update).at? front = some reached → ∃ members, reached = .mapping members := by
      refine forall_congr' fun front => ⟨fun inner _ => inner, fun inner isFront reached leads => ?_⟩
      cases front with
      | nil => exact ⟨update, by simpa using leads.symm⟩
      | cons key front => exact inner (List.cons_ne_nil key front) isFront reached leads
    rw [← Value.over_mapping, Value.at?_over distinct plain, isOpen]
  · have again := Value.over_over distinct (.mapping base)
    rw [Value.over_mapping, Value.over_mapping] at again
    exact Value.mapping.inj again

theorem at?_merge_pattern :
    let base : Section :=
      [("files", .mapping [("pattern", .text "*.md"), ("exclude_dirs", .list [.text ".git"])])]
    let update : Section := [("files", .mapping [("exclude_dirs", .list [])])]
    Value.Distinct (.mapping update) ∧
      (Value.mapping (base.merge update)).at? ["files", "pattern"] = some (.text "*.md") ∧
      (base.merge update).merge update = base.merge update := by
  intro base update
  have files : Value.Distinct (.mapping [("exclude_dirs", .list [])]) :=
    .mapping (by decide) (by simpa using Value.Distinct.list (by simp))
  have distinct : Value.Distinct (.mapping update) := .mapping (by decide) (by simpa [update] using files)
  obtain ⟨paths, again⟩ := @at?_merge base update distinct
  refine ⟨distinct, (paths _ _ (by simp)).mpr (.inr ⟨rfl, rfl, ?_⟩), again⟩
  intro front nonempty isFront reached leads
  rcases front with _ | ⟨key, _ | ⟨second, rest⟩⟩
  · exact absurd rfl nonempty
  · obtain ⟨rfl, _⟩ := List.cons_prefix_cons.mp isFront
    exact ⟨_, (Option.some.inj leads).symm⟩
  · obtain ⟨rfl, shorter⟩ := List.cons_prefix_cons.mp isFront
    obtain ⟨rfl, isPrefix⟩ := List.cons_prefix_cons.mp shorter
    obtain rfl := List.prefix_nil.mp isPrefix
    exact nomatch leads

end Section

end DollarMath
