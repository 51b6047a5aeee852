import DollarMath.Settings.Merge
import DollarMath.Settings.Normal
import Mathlib.Data.List.Induction
import Mathlib.Data.List.Nodup

/-!
What a key leads to in a section after a member was put, sections were laid over each other, or the
switches were renamed. The keys of a section that a document holds are distinct, and stay so.
-/

namespace DollarMath

namespace Scalar

def asKey (key : Scalar) : Scalar :=
  key.whole?.elim key .int

theorem asKey_of_whole? {key : Scalar} {number : Int} (whole : key.whole? = some number) :
    key.asKey = .int number := by
  rw [asKey, whole, Option.elim_some]

theorem asKey_of_not_whole? {key : Scalar} (plain : key.whole? = none) : key.asKey = key := by
  rw [asKey, plain, Option.elim_none]

theorem sameKey_iff {first second : Scalar} :
    first.sameKey second = true ↔ first.asKey = second.asKey := by
  rw [sameKey, Bool.or_eq_true, Bool.and_eq_true, decide_eq_true_iff, decide_eq_true_iff]
  cases whole : first.whole? with
  | none =>
      rw [asKey_of_not_whole? whole]
      cases other : second.whole? with
      | none => simp [asKey_of_not_whole? other]
      | some number =>
          have apart : first ≠ second := by rintro rfl; simp [whole] at other
          have apart' : first ≠ .int number := by rintro rfl; simp [whole?] at whole
          simp [asKey_of_whole? other, apart, apart']
  | some number =>
      rw [asKey_of_whole? whole]
      cases other : second.whole? with
      | none =>
          have apart : first ≠ second := by rintro rfl; simp [whole] at other
          have apart' : .int number ≠ second := by rintro rfl; simp [whole?] at other
          simp [asKey_of_not_whole? other, apart, apart']
      | some second =>
          rw [asKey_of_whole? other, Scalar.int.injEq, Option.some.injEq]
          refine ⟨fun same => same.elim (fun same => ?_) And.right, fun same => .inr ⟨rfl, same⟩⟩
          rw [same, other] at whole
          exact (Option.some.inj whole).symm

@[simp] theorem asKey_text (name : String) : (Scalar.text name).asKey = .text name := rfl

theorem text_eq_asKey {key : Scalar} {name : String} : .text name = key.asKey ↔ .text name = key := by
  cases whole : key.whole? with
  | none => rw [asKey_of_not_whole? whole]
  | some number =>
      have apart : .text name ≠ key := by rintro rfl; simp [whole?] at whole
      simp [asKey_of_whole? whole, apart]

end Scalar

def Value.members : Value → Section
  | .mapping members => members
  | _ => []

namespace Section

variable {members base update : Section} {key other : Scalar} {value : Value}

def keys (members : Section) : List Scalar :=
  members.map Prod.fst

def inner (members : Section) (key : Scalar) : Section :=
  match members.get? key with
  | some (.mapping held) => held
  | _ => []

theorem inner_eq (members : Section) (key : Scalar) :
    members.inner key = (members.get? key).elim [] Value.members := by
  unfold inner
  split
  next held found => rw [found]; rfl
  next plain =>
    cases found : members.get? key with
    | none => rfl
    | some value =>
        cases value with
        | mapping held => exact absurd found (plain held)
        | _ => rfl

@[simp] theorem get?_nil (key : Scalar) : get? [] key = none := rfl

theorem get?_cons (member : Scalar × Value) (rest : Section) (key : Scalar) :
    get? (member :: rest) key = if key = member.1 then some member.2 else get? rest key := by
  rw [get?, List.lookup_cons]
  by_cases same : key = member.1
  · simp [same]
  · simp [beq_eq_false_iff_ne.mpr same, same, get?]

theorem get?_eq_none_iff : members.get? key = none ↔ key ∉ members.keys := by
  induction members with
  | nil => simp [keys]
  | cons member rest ih =>
      rw [get?_cons, keys, List.map_cons, List.mem_cons, not_or]
      split
      next same => simp [same]
      next other => exact ih.trans (by simp [keys, other])

theorem mem_of_get? (found : members.get? key = some value) : (key, value) ∈ members := by
  induction members with
  | nil => simp at found
  | cons member rest ih =>
      rw [get?_cons] at found
      split at found
      next same =>
        obtain rfl := Option.some.inj found
        simp [same]
      next => exact List.mem_cons_of_mem _ (ih found)

theorem mem_keys_put (key other : Scalar) (value : Value) (members : Section) :
    other ∈ keys (put key value members) ↔ other = key ∨ other ∈ keys members := by
  induction members with
  | nil => simp [put, keys]
  | cons member rest ih =>
      rw [put]
      split
      next here => simp [keys, here]
      next =>
        simp only [keys, List.map_cons, List.mem_cons] at ih ⊢
        rw [ih]
        exact or_left_comm

theorem nodup_put (distinct : (keys members).Nodup) : (keys (put key value members)).Nodup := by
  induction members with
  | nil => simp [put, keys]
  | cons member rest ih =>
      obtain ⟨fresh, others⟩ := List.nodup_cons.mp distinct
      rw [put]
      split
      next here => exact List.nodup_cons.mpr ⟨here ▸ fresh, others⟩
      next apart =>
        refine List.nodup_cons.mpr ⟨fun again => ?_, ih others⟩
        rcases (mem_keys_put key member.1 value rest).mp again with same | later
        · exact apart same
        · exact fresh later

theorem put_of_get? (found : get? members key = some value) : put key value members = members := by
  induction members with
  | nil => simp at found
  | cons member rest ih =>
      rw [get?_cons] at found
      rw [put]
      split at found
      next same =>
        obtain rfl := Option.some.inj found
        rw [if_pos same.symm, same]
      next apart => rw [if_neg (Ne.symm apart), ih found]

theorem put_of_not_mem (fresh : key ∉ keys members) :
    put key value members = members ++ [(key, value)] := by
  induction members with
  | nil => rfl
  | cons member rest ih =>
      obtain ⟨apart, others⟩ := not_or.mp (List.mem_cons.not.mp fresh)
      rw [put, if_neg (Ne.symm apart), ih others]
      rfl

theorem ofPairs_concat (pairs : List (Scalar × Value)) (pair : Scalar × Value) :
    ofPairs (pairs ++ [pair]) = put pair.1 pair.2 (ofPairs pairs) := by
  simp [ofPairs]

theorem mem_keys_ofPairs {pairs : List (Scalar × Value)} :
    key ∈ keys (ofPairs pairs) ↔ key ∈ keys pairs := by
  induction pairs using List.reverseRecOn with
  | nil => rfl
  | append_singleton pairs pair ih =>
      rw [ofPairs_concat, mem_keys_put, ih]
      simp [keys, or_comm]

theorem nodup_ofPairs (pairs : List (Scalar × Value)) : (keys (ofPairs pairs)).Nodup := by
  induction pairs using List.reverseRecOn with
  | nil => exact List.nodup_nil
  | append_singleton pairs pair ih => exact ofPairs_concat pairs pair ▸ nodup_put ih

theorem ofPairs_of_nodup {pairs : List (Scalar × Value)} (distinct : (keys pairs).Nodup) :
    ofPairs pairs = pairs := by
  induction pairs using List.reverseRecOn with
  | nil => rfl
  | append_singleton pairs pair ih =>
      rw [keys, List.map_append, List.nodup_append] at distinct
      obtain ⟨front, _, apart⟩ := distinct
      rw [ofPairs_concat, ih front, put_of_not_mem]
      intro again
      exact apart _ again _ (by simp) rfl

@[simp] theorem find?_nil (key : Scalar) : find? [] key = none := rfl

theorem find?_cons (member : Scalar × Value) (rest : Section) (key : Scalar) :
    find? (member :: rest) key =
      if key.asKey = member.1.asKey then some member.2 else find? rest key := by
  rw [find?, List.find?_cons]
  split
  next same => rw [if_pos (Scalar.sameKey_iff.mp same).symm]; rfl
  next other =>
    rw [if_neg fun same => Bool.false_ne_true (other.symm.trans (Scalar.sameKey_iff.mpr same.symm))]
    rfl

theorem find?_congr (same : key.asKey = other.asKey) : members.find? key = members.find? other := by
  induction members with
  | nil => rfl
  | cons member rest ih => rw [find?_cons, find?_cons, ih, same]

theorem find?_text (members : Section) (name : String) :
    members.find? (.text name) = members.get? (.text name) := by
  induction members with
  | nil => rfl
  | cons member rest ih =>
      simp only [find?_cons, get?_cons, ih, Scalar.asKey_text, Scalar.text_eq_asKey]

theorem exists_mem_of_find? (found : members.find? key = some value) :
    ∃ member ∈ members, member.2 = value := by
  obtain ⟨member, isFirst, same⟩ := Option.map_eq_some_iff.mp found
  exact ⟨member, List.mem_of_find?_eq_some isFirst, same⟩

def marks (members : Section) : List Scalar :=
  members.map (·.1.asKey)

theorem marks_eq (members : Section) : members.marks = members.keys.map Scalar.asKey := by
  simp [marks, keys]

theorem nodup_of_marks (apart : members.marks.Nodup) : members.keys.Nodup :=
  (marks_eq members ▸ apart).of_map _

theorem marks_of_texts (texts : ∀ member ∈ members, ∃ name, member.1 = .text name) :
    members.marks = members.keys := by
  refine List.map_congr_left fun member inside => ?_
  obtain ⟨name, same⟩ := texts member inside
  rw [same, Scalar.asKey_text]

theorem find?_eq_none_iff : members.find? key = none ↔ key.asKey ∉ members.marks := by
  induction members with
  | nil => simp [marks]
  | cons member rest ih =>
      rw [find?_cons, marks, List.map_cons, List.mem_cons, not_or]
      split
      next same => simp [same]
      next other => exact ih.trans (by simp [marks, other])

theorem find?_of_mem {member : Scalar × Value} (apart : members.marks.Nodup)
    (inside : member ∈ members) : members.find? member.1 = some member.2 := by
  induction members with
  | nil => simp at inside
  | cons first rest ih =>
      obtain ⟨fresh, others⟩ := List.nodup_cons.mp apart
      rw [find?_cons]
      rcases List.mem_cons.mp inside with rfl | later
      · rw [if_pos rfl]
      · have apart : member.1.asKey ≠ first.1.asKey := fun same =>
          fresh (List.mem_map.mpr ⟨member, later, same⟩)
        rw [if_neg apart, ih others later]

theorem find?_assign (key other : Scalar) (value : Value) (members : Section) :
    (assign key value members).find? other =
      if other.asKey = key.asKey then some value else members.find? other := by
  induction members with
  | nil => rw [assign, find?_cons, find?_nil]
  | cons member rest ih =>
      rw [assign]
      split
      next here =>
        rw [find?_cons, find?_cons, Scalar.sameKey_iff.mp here]
        split <;> rfl
      next apart =>
        rw [find?_cons, find?_cons, ih]
        split
        next here => rw [if_neg fun same => apart (Scalar.sameKey_iff.mpr (here.symm.trans same))]
        next => rfl

theorem get?_assign (key : Scalar) (name : String) (value : Value) (members : Section) :
    (assign key value members).get? (.text name) =
      if .text name = key then some value else members.get? (.text name) := by
  rw [← find?_text, find?_assign, find?_text]
  simp only [Scalar.asKey_text, Scalar.text_eq_asKey]

theorem assign_of_find? (found : find? members key = some value) :
    assign key value members = members := by
  induction members with
  | nil => simp at found
  | cons member rest ih =>
      rw [find?_cons] at found
      rw [assign]
      split at found
      next same =>
        obtain rfl := Option.some.inj found
        rw [if_pos (Scalar.sameKey_iff.mpr same.symm)]
      next apart =>
        rw [if_neg fun same => apart (Scalar.sameKey_iff.mp same).symm, ih found]

theorem mem_keys_assign (there : other ∈ keys (assign key value members)) :
    other = key ∨ other ∈ keys members := by
  induction members with
  | nil => exact .inl (by simpa [assign, keys] using there)
  | cons member rest ih =>
      rw [assign] at there
      split at there
      next => exact .inr there
      next =>
        rcases List.mem_cons.mp there with rfl | later
        · exact .inr List.mem_cons_self
        · exact (ih later).imp_right (List.mem_cons_of_mem _)

theorem mem_marks_assign {mark : Scalar} :
    mark ∈ marks (assign key value members) ↔ mark = key.asKey ∨ mark ∈ marks members := by
  induction members with
  | nil => simp [assign, marks]
  | cons member rest ih =>
      rw [assign]
      split
      next here => simp [marks, Scalar.sameKey_iff.mp here]
      next =>
        simp only [marks, List.map_cons, List.mem_cons] at ih ⊢
        rw [ih]
        exact or_left_comm

theorem nodup_marks_assign (apart : (marks members).Nodup) :
    (marks (assign key value members)).Nodup := by
  induction members with
  | nil => simp [assign, marks]
  | cons member rest ih =>
      obtain ⟨fresh, others⟩ := List.nodup_cons.mp apart
      rw [assign]
      split
      next => exact apart
      next differs =>
        refine List.nodup_cons.mpr ⟨fun again => ?_, ih others⟩
        rcases mem_marks_assign.mp again with same | later
        · exact differs (Scalar.sameKey_iff.mpr same)
        · exact fresh later

def laidOver (old : Option Value) (new : Value) : Value :=
  old.elim new fun old => old.over new

theorem putOver_eq (base : Section) (member : Scalar × Value) :
    putOver base member = assign member.1 (laidOver (find? base member.1) member.2) base := by
  rw [putOver]
  split
  next old found => rw [found]; rfl
  next unfound => rw [unfound]; rfl

theorem find?_merge (apart : (marks update).Nodup) :
    find? (merge base update) key =
      ((find? update key).map (laidOver (find? base key))).or (find? base key) := by
  induction update generalizing base with
  | nil => rw [merge]; rfl
  | cons member rest ih =>
      obtain ⟨fresh, others⟩ := List.nodup_cons.mp apart
      rw [merge, ih others, putOver_eq, find?_assign, find?_cons]
      by_cases same : key.asKey = member.1.asKey
      · have unfound : find? rest key = none := find?_eq_none_iff.mpr (same ▸ fresh)
        simp [unfound, same, find?_congr same]
      · simp [same]

theorem get?_merge {name : String} (distinct : (keys update).Nodup) :
    get? (merge base update) (.text name) =
      ((get? update (.text name)).map (laidOver (get? base (.text name)))).or
        (get? base (.text name)) := by
  induction update generalizing base with
  | nil => rw [merge]; rfl
  | cons member rest ih =>
      obtain ⟨fresh, others⟩ := List.nodup_cons.mp distinct
      rw [merge, ih others, putOver_eq, get?_assign, get?_cons]
      by_cases same : .text name = member.1
      · have unfound : get? rest (.text name) = none := get?_eq_none_iff.mpr (same ▸ fresh)
        simp [unfound, ← same, find?_text]
      · simp [same]

theorem merge_eq_self (held : ∀ member ∈ update, ∃ own, base.find? member.1 = some own ∧
    own.over member.2 = own) : merge base update = base := by
  induction update with
  | nil => rw [merge]
  | cons member rest ih =>
      obtain ⟨first, others⟩ := List.forall_mem_cons.mp held
      obtain ⟨own, found, same⟩ := first
      rw [merge, putOver_eq, found, laidOver, Option.elim_some, same, assign_of_find? found, ih others]

theorem mem_keys_merge {base : Section} (there : key ∈ keys (merge base update)) :
    key ∈ keys base ∨ key ∈ keys update := by
  induction update generalizing base with
  | nil => exact .inl (by rwa [merge] at there)
  | cons member rest ih =>
      rw [merge, putOver_eq] at there
      rcases ih there with assigned | later
      · rcases mem_keys_assign assigned with rfl | inBase
        · exact .inr List.mem_cons_self
        · exact .inl inBase
      · exact .inr (List.mem_cons_of_mem _ later)

theorem mem_marks_merge {base : Section} {mark : Scalar} :
    mark ∈ marks (merge base update) ↔ mark ∈ marks base ∨ mark ∈ marks update := by
  induction update generalizing base with
  | nil => rw [merge]; simp [marks]
  | cons member rest ih =>
      rw [merge, ih, putOver_eq, mem_marks_assign]
      simp only [marks, List.map_cons, List.mem_cons]
      rw [or_comm (a := mark = member.1.asKey), or_assoc]

theorem nodup_marks_merge (apart : (marks base).Nodup) : (marks (merge base update)).Nodup := by
  induction update generalizing base with
  | nil => rwa [merge]
  | cons member rest ih =>
      rw [merge, putOver_eq]
      exact ih (nodup_marks_assign apart)

theorem nodup_merge (texts : ∀ member ∈ base, ∃ name, member.1 = .text name)
    (distinct : (keys base).Nodup) : (keys (merge base update)).Nodup :=
  nodup_of_marks (nodup_marks_merge (marks_of_texts texts ▸ distinct))

end Section

theorem Value.over_mapping (base update : Section) :
    Value.over (.mapping base) (.mapping update) = .mapping (base.merge update) := by
  rw [Value.over]

theorem Value.over_plain {new : Value} (plain : ∀ update, new ≠ .mapping update) (old : Value) :
    old.over new = new := by
  cases new with
  | mapping update => exact absurd rfl (plain update)
  | _ => rfl

theorem Value.over_of_not_mapping {old new : Value} (plain : ∀ base, old ≠ .mapping base) :
    old.over new = new := by
  cases new with
  | mapping update =>
      rw [Value.over]
      exact plain
  | scalar value => rfl
  | list items => rfl
  | set items => rfl

end DollarMath
