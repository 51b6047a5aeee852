import DollarMath.Proofs.Settings.Change
import DollarMath.Proofs.Text.Utf8
import DollarMath.Proofs.Yaml.Distinct
import Mathlib

/-!
The settings in force before and after one setting was changed in the user's file.
-/

namespace DollarMath

theorem Section.distinct_of_value {members : Section} (distinct : Value.Distinct (.mapping members)) :
    members.Distinct := by
  cases distinct with
  | mapping keys parts =>
      refine ⟨nodup_of_marks keys, fun key => ?_⟩
      unfold Section.inner
      split
      next held found =>
        cases parts _ (Section.mem_of_get? found) with
        | mapping inner _ => exact nodup_of_marks inner
      next => exact List.nodup_nil

namespace Settings

variable {file : Option Bytes} {user : Value} {members : Section} {settings : Settings}

def held (file : Option Bytes) : Except LoadError Value :=
  file.elim (.ok .null) userValue

theorem distinct_of_held (holds : held file = .ok user) : user.Distinct := by
  cases file with
  | none =>
      obtain rfl := Except.ok.inj holds
      exact .scalar _
  | some bytes =>
      rw [held, Option.elim_some, userValue] at holds
      split at holds
      next => simp at holds
      next =>
        split at holds
        next => simp at holds
        next value reads =>
          obtain rfl := Except.ok.inj holds
          exact Yaml.distinct_of_read reads

theorem distinct_of_userSection (distinct : user.Distinct)
    (isSection : userSection user = .ok members) : members.Distinct := by
  unfold userSection at isSection
  split at isSection
  next =>
    obtain rfl := Except.ok.inj isSection
    exact ⟨List.nodup_nil, fun _ => List.nodup_nil⟩
  next =>
    split at isSection
    next =>
      obtain rfl := Except.ok.inj isSection
      exact Section.distinct_of_value distinct
    next => simp at isSection

theorem ofUser_eq_ok : ofUser user = .ok settings ↔
    ∃ members, userSection user = .ok members ∧ ofUserSection members = .ok settings := by
  unfold ofUser userSection
  split
  next => simp [mapError_eq_ok]
  next => cases user <;> simp [mapError_eq_ok]

theorem load_eq_ok : load file = .ok settings ↔
    ∃ user, held file = .ok user ∧ ofUser user = .ok settings := by
  cases file with
  | none => simp [load, held]
  | some bytes => exact bind_eq_ok

def IsShadowedIn (file : Option Bytes) (key : String) : Prop :=
  ∃ user members, held file = .ok user ∧ userSection user = .ok members ∧ IsShadowed members key

theorem load_change {key text : String} {changed : Section} (holds : held file = .ok user)
    (done : change user key text = .ok changed) :
    ∃ new, ofUser (.mapping changed) = .ok new ∧
      (∀ old, load file = .ok old → ∀ setting : Setting,
        setting.path ≠ addressed key ∨ IsShadowedIn file key → new.get setting = old.get setting) ∧
      (¬IsShadowedIn file key → ∃ (setting : Setting) (value : Value),
        setting.path = addressed key ∧ parseValue text = .ok value ∧
          setting.check value = .ok (new.get setting)) := by
  obtain ⟨members, _, isSection, _⟩ := change_eq_ok done
  have distinct := distinct_of_userSection (distinct_of_held holds) isSection
  have shadowed : IsShadowedIn file key ↔ IsShadowed members key := by
    constructor
    · rintro ⟨_, _, again, same, later⟩
      obtain rfl := Except.ok.inj (holds.symm.trans again)
      obtain rfl := Except.ok.inj (isSection.symm.trans same)
      exact later
    · exact fun later => ⟨user, members, holds, isSection, later⟩
  obtain ⟨new, loads, others, own⟩ := change_settings isSection distinct done
  refine ⟨new, ?_, fun old before setting other => ?_, fun free => own (shadowed.not.mp free)⟩
  · refine ofUser_eq_ok.mpr ⟨changed, ?_, loads⟩
    rw [userSection]
    split
    next empty => rw [List.isEmpty_iff.mp empty]
    next => rfl
  · obtain ⟨_, again, made⟩ := load_eq_ok.mp before
    obtain rfl := Except.ok.inj (holds.symm.trans again)
    obtain ⟨_, same, values⟩ := ofUser_eq_ok.mp made
    obtain rfl := Except.ok.inj (isSection.symm.trans same)
    have after := others setting (other.imp_right shadowed.mp)
    exact Except.ok.inj (after.symm.trans (values_of_ofUserSection distinct values setting))

/-- Reading a file stage by stage: its tokens, the document of them, and the value of that. -/
theorem userValue_of_tokens {file : String} {tokens : List Yaml.Token} {root : Yaml.Node}
    {value : Value}
    (spelled : Yaml.tokens (Text.unifyReturns file.toList) = tokens ∧
      (Text.unifyReturns file.toList).all Yaml.isAllowed = true)
    (parts : Yaml.Node.ofTokens? tokens = .ok (some root)) (means : root.toValue = .ok value) :
    userValue (Utf8.encode file.toList) = .ok value := by
  have reads : Yaml.read file = .ok value := by
    rw [Yaml.read, spelled.1, spelled.2, parts]
    exact means
  rw [userValue, Utf8.decode_encode]
  dsimp only
  rw [String.ofList_toList, reads]

end Settings

namespace Yaml

def plainNode (text : ScalarText) : Node :=
  .scalar (.ofPlain text.chars) text

/-- The document of a section with one member. The kinds of its scalars are left as they are: they
are found by comparing texts, which is for the kernel to evaluate. -/
theorem ofTokens?_member (group name value : ScalarText) :
    Node.ofTokens? [.blockMapping, .key, .scalar group true, .value, .blockMapping, .key,
        .scalar name true, .value, .scalar value true, .blockEnd, .blockEnd, .finish] =
      .ok (some (.mapping .mapping [(plainNode group,
        .mapping .mapping [(plainNode name, plainNode value)])])) := by
  cbv

theorem ofTokens?_members (group first before second after : ScalarText) :
    Node.ofTokens? [.blockMapping, .key, .scalar group true, .value, .blockMapping, .key,
        .scalar first true, .value, .scalar before true, .key, .scalar second true, .value,
        .scalar after true, .blockEnd, .blockEnd, .finish] =
      .ok (some (.mapping .mapping [(plainNode group, .mapping .mapping
        [(plainNode first, plainNode before), (plainNode second, plainNode after)])])) := by
  cbv

end Yaml

end DollarMath
