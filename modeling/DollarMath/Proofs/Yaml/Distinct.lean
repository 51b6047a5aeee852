import DollarMath.Proofs.Results
import DollarMath.Proofs.Settings.Sections
import DollarMath.Yaml.Meaning

/-!
No two keys of a mapping in the value of a document count as the same: what a key that is there
already is given goes to the place that it has.
-/

namespace DollarMath

inductive Value.Distinct : Value → Prop
  | scalar (value : Scalar) : Distinct (.scalar value)
  | list {items : List Value} (parts : ∀ item ∈ items, Distinct item) : Distinct (.list items)
  | set (items : List Scalar) : Distinct (.set items)
  | mapping {members : Section} (keys : (Section.marks members).Nodup)
      (parts : ∀ member ∈ members, Distinct member.2) : Distinct (.mapping members)

namespace Yaml

variable {key : Scalar} {value : Value} {members : Section}

theorem distinct_assign (parts : ∀ member ∈ members, member.2.Distinct) (own : value.Distinct) :
    ∀ member ∈ members.assign key value, member.2.Distinct := by
  induction members with
  | nil => simpa [Section.assign] using own
  | cons first rest ih =>
      obtain ⟨head, others⟩ := List.forall_mem_cons.mp parts
      rw [Section.assign]
      split
      next => exact List.forall_mem_cons.mpr ⟨own, others⟩
      next => exact List.forall_mem_cons.mpr ⟨head, ih others⟩

namespace Node

section Parts

variable {part : Node → Meaning Value} (parts : ∀ node, (part node).value.Distinct)
include parts

theorem distinct_itemsMeaning (items : List Node) :
    ∀ item ∈ (itemsMeaning part items).value, item.Distinct := by
  intro item inside
  obtain ⟨meaning, found, rfl⟩ := List.mem_map.mp inside
  obtain ⟨node, _, rfl⟩ := List.mem_map.mp found
  exact parts node

theorem distinct_pairMeaning (depth : Nat) (node : Node) :
    (pairMeaning depth part node).value.Distinct := by
  unfold pairMeaning
  split
  next first second => exact .list (distinct_itemsMeaning parts [first, second])
  next => exact .scalar _

theorem distinct_membersMeaning (depth : Nat) (nodes : List (Node × Node)) {found : Section}
    (distinct : Value.Distinct (.mapping found)) :
    Value.Distinct (.mapping (membersMeaning depth part found nodes).value) := by
  induction nodes generalizing found with
  | nil => exact distinct
  | cons node nodes ih =>
      cases distinct with
      | mapping keys values =>
          rw [membersMeaning]
          dsimp only
          split
          next =>
            exact ih (.mapping (Section.nodup_marks_assign keys)
              (distinct_assign values (parts node.2)))
          next => exact ih (.mapping keys values)

end Parts

/-- The fuel bounds how deep the parts lie, so the induction on it is one over them. -/
theorem distinct_meaning (fuel depth : Nat) (node : Node) :
    (node.meaning fuel depth).value.Distinct := by
  induction fuel generalizing depth node with
  | zero => exact .scalar _
  | succ fuel ih =>
      have parts := ih (depth + 1)
      unfold meaning
      split
      next unkeyed => simp at unkeyed
      next => exact .scalar _
      next steps same _ =>
        obtain rfl := Nat.succ.inj same
        dsimp only
        split
        next => split <;> exact .scalar _
        next =>
          split
          next =>
            split
            next => exact .list (distinct_itemsMeaning parts _)
            next => exact .list (distinct_itemsMeaning (distinct_pairMeaning parts _) _)
            next => exact .list (distinct_itemsMeaning (distinct_pairMeaning parts _) _)
            next nodes =>
              have nothing : Value.Distinct (.mapping []) := .mapping List.nodup_nil (by simp)
              split
              next all _ => exact distinct_membersMeaning parts _ all nothing
              next => exact nothing
            next => exact .set _
            next => exact .list (by simp)
          next => exact .scalar _

end Node

theorem distinct_of_read {source : String} (reads : read source = .ok value) : value.Distinct := by
  unfold read at reads
  dsimp only at reads
  split at reads
  next => simp [throw, throwThe, MonadExceptOf.throw, bind, Except.bind] at reads
  obtain ⟨root?, _, reads⟩ := bind_eq_ok.mp reads
  cases root? with
  | none =>
      obtain rfl := Except.ok.inj reads
      exact .scalar _
  | some root =>
      dsimp only at reads
      rw [Node.toValue, Meaning.result] at reads
      split at reads
      next => simp at reads
      next =>
        obtain rfl := Except.ok.inj reads
        exact Node.distinct_meaning _ _ root

end Yaml

end DollarMath
