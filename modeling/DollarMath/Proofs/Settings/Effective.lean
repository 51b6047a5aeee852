import DollarMath.Proofs.Settings.Describes
import DollarMath.Proofs.Settings.Normal
import DollarMath.Settings.Load

/-!
The settings that a user's section makes of the defaults: each is what the section gives for it,
checked, and what it is unless changed if the section gives nothing.
-/

namespace DollarMath

namespace Setting

/-- The section of the group that the setting is in, with the keys that it has and what it gives for
the setting. -/
theorem get?_toSection (settings : Settings) (setting : Setting) :
    ∃ members : Section, settings.toSection.get? setting.sectionName = some (.mapping members) ∧
      (Section.keys members).Nodup ∧
      (∀ member ∈ members, ∃ other : Setting,
        other.sectionName = setting.sectionName ∧ member.1 = .text other.name) ∧
      members.get? setting.name = some (settings.get setting) := by
  cases setting with
  | option switch =>
      refine ⟨_, rfl, by simp [Section.keys, Switch.all, Switch.name], fun member inside => ?_,
        by cases switch <;> rfl⟩
      obtain ⟨other, _, rfl⟩ := List.mem_map.mp inside
      exact ⟨.option other, rfl, rfl⟩
  | pattern | excludedFolders =>
      refine ⟨_, rfl, by simp [Section.keys], fun member inside => ?_, rfl⟩
      rcases (by simpa using inside) with rfl | rfl
      · exact ⟨.pattern, rfl, rfl⟩
      · exact ⟨.excludedFolders, rfl, rfl⟩
  | reportEnabled | reportPath =>
      refine ⟨_, rfl, by simp [Section.keys], fun member inside => ?_, rfl⟩
      rcases (by simpa using inside) with rfl | rfl
      · exact ⟨.reportEnabled, rfl, rfl⟩
      · exact ⟨.reportPath, rfl, rfl⟩

theorem check_get (settings : Settings) (setting : Setting) :
    setting.check (settings.get setting) = .ok (settings.get setting) := by
  cases setting with
  | excludedFolders =>
      have texts (names : List String) (path : List String) :
          Settings.checkTexts path (.list (names.map .text)) = .ok names := by
        rw [Settings.checkTexts, Checked.all_eq_ok, List.zipIdx_map, List.map_map]
        conv_rhs => rw [← List.zipIdx_map_fst 0 names, List.map_map]
        rfl
      rw [check, Settings.get, texts]
      rfl
  | _ => rfl

theorem get_ne_mapping (settings : Settings) (setting : Setting) (members : Section) :
    settings.get setting ≠ .mapping members := by
  cases setting <;> simp [Settings.get]

theorem check_mapping_ne_ok (setting : Setting) (members : Section) (value : Value) :
    setting.check (.mapping members) ≠ .ok value := by
  cases setting <;> simp [check, Settings.checkSwitch, Settings.checkText, Settings.checkTexts,
    Settings.checkFlag, Checked.fail, Except.map]

theorem eq_option_of_sectionName {setting : Setting} (conversion : setting.sectionName = "conversion") :
    ∃ switch, setting = .option switch := by
  cases setting with
  | option switch => exact ⟨switch, rfl⟩
  | _ => exact absurd conversion (by decide)

end Setting

namespace Settings

theorem not_contains_camel {members named : Section} (read : normalizeKeys members = .ok named)
    (switch : Switch) :
    (named.inner "conversion").contains (KeyCase.camel switch.name) = false := by
  rw [inner_conversion_of_normalizeKeys read, Section.contains, List.any_eq_false]
  intro member inside same
  have key : .text (KeyCase.camel switch.name) ∈
      Section.keys (Section.ofPairs (renamed (members.inner "conversion"))) :=
    List.mem_map.mpr ⟨member, inside, by simpa using same⟩
  obtain ⟨pair, fromMember, isKey⟩ := List.mem_map.mp (Section.mem_keys_ofPairs.mp key)
  obtain ⟨other, isMember, rfl⟩ := List.mem_map.mp fromMember
  have text : other.1.isText = true := by
    obtain ⟨switches, found, texts, _⟩ | ⟨plain, _⟩ := normalizeKeys_eq_ok.mp read
    · rw [Section.inner, found] at isMember
      exact texts other isMember
    · rw [Section.inner] at isMember
      split at isMember
      next held found => exact absurd found (plain held)
      next => simp at isMember
  exact normalName_ne_camel other.1 switch text isKey

theorem get?_of_normalizeKeys_of_plain {members named : Section} {key : Scalar} {value : Value}
    (read : normalizeKeys members = .ok named) (found : members.get? key = some value)
    (plain : ∀ inner, value ≠ .mapping inner) : named.get? key = some value := by
  obtain ⟨switches, mapping, _, rfl⟩ | ⟨_, rfl⟩ := normalizeKeys_eq_ok.mp read
  · rw [Section.get?_put, if_neg, found]
    rintro rfl
    rw [mapping, Option.some.injEq] at found
    exact plain switches found.symm
  · exact found

theorem inner_of_normalizeKeys {members named : Section} {key : Scalar}
    (read : normalizeKeys members = .ok named) (other : key ≠ "conversion") :
    named.inner key = members.inner key := by
  rw [Section.inner, Section.inner, get?_of_normalizeKeys read other]

structure IsNormal (normal : Section) : Prop where
  distinct : (Section.keys normal).Nodup
  inner : ∀ key, (Section.keys (normal.inner key)).Nodup
  lower : ∀ member ∈ normal.inner "conversion", ∃ key, member.1 = normalName key

variable {normal : Section} {settings : Settings}

theorem get?_merge_defaults (distinct : (Section.keys normal).Nodup) (setting : Setting) :
    ∃ base : Section, (Section.keys base).Nodup ∧
      (∀ member ∈ base, ∃ other : Setting,
        other.sectionName = setting.sectionName ∧ member.1 = .text other.name) ∧
      base.get? setting.name = some (Settings.get {} setting) ∧
      (Section.merge defaults normal).get? setting.sectionName =
        some ((normal.get? setting.sectionName).elim (.mapping base) (Value.over (.mapping base))) := by
  obtain ⟨base, found, baseDistinct, keys, default⟩ := setting.get?_toSection {}
  refine ⟨base, baseDistinct, keys, default, ?_⟩
  rw [Section.get?_merge distinct, defaults, found]
  cases normal.get? setting.sectionName <;> rfl

theorem exists_mem_merge {base update : Section} {member : Scalar × Value} (inside : member ∈ update) :
    ∃ other ∈ base.merge update, ∀ name, other.1 = .text name → member.1 = .text name := by
  have marked : member.1.asKey ∈ (base.merge update).marks :=
    Section.mem_marks_merge.mpr (.inr (List.mem_map.mpr ⟨member, inside, rfl⟩))
  obtain ⟨other, isMember, same⟩ := List.mem_map.mp marked
  refine ⟨other, isMember, fun name isName => ?_⟩
  rw [isName] at same
  exact (Scalar.text_eq_asKey.mp same).symm

theorem exists_name_of_renamed {base update : Section}
    (baseNames : ∀ member ∈ base, ∃ switch : Switch, member.1 = .text switch.name)
    (lower : ∀ member ∈ update, ∃ key, member.1 = normalName key)
    (known : ∀ member ∈ Section.ofPairs (renamed (base.merge update)),
      ∃ switch : Switch, member.1 = .text switch.name) :
    ∀ member ∈ base.merge update, ∃ switch : Switch, member.1 = .text switch.name := by
  intro member inside
  rcases Section.mem_keys_merge (List.mem_map_of_mem inside) with inBase | inUpdate
  · obtain ⟨other, isMember, same⟩ := List.mem_map.mp inBase
    exact same ▸ baseNames other isMember
  · obtain ⟨other, isMember, same⟩ := List.mem_map.mp inUpdate
    obtain ⟨key, isLower⟩ := lower other isMember
    have again : normalName member.1 ∈ Section.keys (renamed (base.merge update)) :=
      List.mem_map.mpr ⟨_, List.mem_map_of_mem inside, rfl⟩
    obtain ⟨next, isNext, isKey⟩ := List.mem_map.mp (Section.mem_keys_ofPairs.mpr again)
    obtain ⟨switch, isName⟩ := known next isNext
    refine ⟨switch, ?_⟩
    rw [isKey, ← same, isLower] at isName
    rw [← same, isLower]
    exact eq_name_of_normalName isName

theorem option_names {members : Section}
    (known : ∀ member ∈ members, ∃ other : Setting,
      other.sectionName = "conversion" ∧ member.1 = .text other.name) :
    ∀ member ∈ members, ∃ switch : Switch, member.1 = .text switch.name := by
  intro member inside
  obtain ⟨other, isOption, isName⟩ := known member inside
  obtain ⟨switch, rfl⟩ := Setting.eq_option_of_sectionName isOption
  exact ⟨switch, isName⟩

/-- The switches that a user's section gives, laid over the others, are under their names. -/
theorem conversion_of_merge {base update : Section} {settings : Settings} {named : Section}
    (distinct : (Section.keys base).Nodup)
    (baseNames : ∀ member ∈ base, ∃ switch : Switch, member.1 = .text switch.name)
    (lower : ∀ member ∈ update, ∃ key, member.1 = normalName key)
    (read : named.inner "conversion" = Section.ofPairs (renamed (base.merge update)))
    (describes : Describes named settings) :
    named.inner "conversion" = base.merge update ∧
      ∀ member ∈ base.merge update, ∃ switch : Switch, member.1 = .text switch.name := by
  have names := exists_name_of_renamed baseNames lower
    (read ▸ option_names (describes.known_inner (.option .parens)))
  have baseTexts : ∀ member ∈ base, ∃ name, member.1 = .text name := fun member inside =>
    (baseNames member inside).imp' Switch.name fun _ isName => isName
  exact ⟨read.trans (ofPairs_renamed_of_names (Section.nodup_merge baseTexts distinct) names), names⟩

section Laid

variable {named : Section} (isNormal : IsNormal normal)
  (names : normalizeKeys (Section.merge defaults normal) = .ok named)
  (whole : Describes named settings)
include isNormal names whole

theorem exists_mapping_of_laid (setting : Setting) (value : Value)
    (found : normal.get? setting.sectionName = some value) : ∃ update, value = .mapping update := by
  by_contra none
  have plain : ∀ update, value ≠ .mapping update := fun update same => none ⟨update, same⟩
  obtain ⟨base, _, _, _, laid⟩ := get?_merge_defaults isNormal.distinct setting
  rw [found, Option.elim_some, Value.over_plain plain] at laid
  obtain ⟨inner, same, _⟩ :=
    whole.known setting value (get?_of_normalizeKeys_of_plain names laid plain)
  exact plain inner same

/-- The section of a group is laid over that of the defaults, and holds settings of the group only. -/
theorem inner_of_laid (setting : Setting) : ∃ base : Section,
    base.get? setting.name = some (Settings.get {} setting) ∧
      named.inner setting.sectionName = base.merge (normal.inner setting.sectionName) ∧
      ∀ member ∈ normal.inner setting.sectionName, ∃ other : Setting,
        other.sectionName = setting.sectionName ∧ member.1 = .text other.name := by
  obtain ⟨base, distinct, keys, default, laid⟩ := get?_merge_defaults isNormal.distinct setting
  have inner : (Section.merge defaults normal).inner setting.sectionName =
      base.merge (normal.inner setting.sectionName) := by
    rw [Section.inner, laid, Section.inner]
    cases found : normal.get? setting.sectionName with
    | none => simp [Section.merge]
    | some value =>
        obtain ⟨update, rfl⟩ := exists_mapping_of_laid isNormal names whole setting value found
        simp [Value.over_mapping]
  refine ⟨base, default, ?_⟩
  -- Only switches are put under normal keys once more after they were laid over the defaults.
  by_cases conversion : setting.sectionName = "conversion"
  · rw [conversion] at keys inner ⊢
    obtain ⟨same, allNames⟩ := conversion_of_merge distinct (option_names keys) isNormal.lower
      ((inner_conversion_of_normalizeKeys names).trans
        (congrArg (fun switches => Section.ofPairs (renamed switches)) inner)) whole
    refine ⟨same, fun member inside => ?_⟩
    obtain ⟨other, isMember, isKey⟩ := exists_mem_merge inside
    obtain ⟨switch, isName⟩ := allNames other isMember
    exact ⟨.option switch, rfl, isKey _ isName⟩
  · have same : named.inner setting.sectionName = base.merge (normal.inner setting.sectionName) := by
      rw [inner_of_normalizeKeys names (by simpa using conversion), inner]
    refine ⟨same, fun member inside => ?_⟩
    obtain ⟨other, isMember, isKey⟩ := exists_mem_merge inside
    obtain ⟨found, isSection, isName⟩ := whole.known_inner setting other (same ▸ isMember)
    exact ⟨found, isSection, isKey _ isName⟩

theorem describes_of_laid : Describes normal settings := by
  refine ⟨fun member inside => ?_, fun setting value found => ?_, fun setting => ?_⟩
  · obtain ⟨other, isMember, isKey⟩ := exists_mem_merge inside
    have key : other.1 ∈ Section.keys named :=
      (mem_keys_of_normalizeKeys names).mpr (List.mem_map_of_mem isMember)
    obtain ⟨again, isAgain, same⟩ := List.mem_map.mp key
    obtain ⟨setting, isSection⟩ := whole.sections again isAgain
    exact ⟨setting, isKey _ (same ▸ isSection)⟩
  · obtain ⟨update, rfl⟩ := exists_mapping_of_laid isNormal names whole setting value found
    obtain ⟨_, _, _, known⟩ := inner_of_laid isNormal names whole setting
    rw [Section.inner, found] at known
    exact ⟨update, rfl, known⟩
  · obtain ⟨base, default, inner, _⟩ := inner_of_laid isNormal names whole setting
    have value := whole.values setting
    rw [inner, Section.get?_merge (isNormal.inner _), default] at value
    cases given : (normal.inner setting.sectionName).get? setting.name with
    | none =>
        rw [given] at value
        exact (setting.check_get {}).symm.trans value
    | some held =>
        rw [given, Option.map_some, Option.some_or, Section.laidOver, Option.elim_some,
          Value.over_of_not_mapping (setting.get_ne_mapping {})] at value
        exact value

end Laid

theorem describes_of_ofSection (isNormal : IsNormal normal)
    (read : ofSection (Section.merge defaults normal) = .ok settings) :
    Describes normal settings := by
  unfold ofSection at read
  split at read
  next => simp at read
  next named names =>
    split at read
    next => simp at read
    next =>
      exact describes_of_laid isNormal names
        (describes_of_check (not_contains_camel names) (mapError_eq_ok.mp read))

/-- Under normal keys a section that describes settings stays as it is. -/
theorem normalizeKeys_of_describes (isNormal : IsNormal normal) (describes : Describes normal settings) :
    normalizeKeys normal = .ok normal := by
  refine normalizeKeys_eq_ok.mpr ?_
  by_cases mapping : ∃ switches, normal.get? "conversion" = some (.mapping switches)
  · obtain ⟨switches, found⟩ := mapping
    have inner : normal.inner "conversion" = switches := by rw [Section.inner, found]
    have names : ∀ member ∈ switches, ∃ switch : Switch, member.1 = .text switch.name :=
      inner ▸ option_names (describes.known_inner (.option .parens))
    refine .inl ⟨switches, found, fun member inside => ?_, ?_⟩
    · obtain ⟨switch, isName⟩ := names member inside
      rw [isName]
      rfl
    · rw [ofPairs_renamed_of_names (inner ▸ isNormal.inner "conversion") names,
        Section.put_of_get? found]
  · exact .inr ⟨fun switches found => mapping ⟨switches, found⟩, rfl⟩

end Settings

structure Section.Distinct (members : Section) : Prop where
  outer : (Section.keys members).Nodup
  inner : ∀ key, (Section.keys (members.inner key)).Nodup

/-- What the section that a setting is in gives for it. Of the spellings of a switch the last one
counts. -/
def Setting.givenIn (setting : Setting) (inner : Section) : Option Value :=
  match setting with
  | .option switch => Settings.lastNamed? (.text switch.name) inner
  | other => inner.get? other.name

def Section.given? (members : Section) (setting : Setting) : Option Value :=
  setting.givenIn (members.inner setting.sectionName)

namespace Settings

variable {user normal : Section} {settings : Settings}

theorem isNormal_of_normalizeKeys (distinct : user.Distinct) (read : normalizeKeys user = .ok normal) :
    IsNormal normal := by
  refine ⟨nodup_of_normalizeKeys read distinct.outer, fun key => ?_, fun member inside => ?_⟩
  · by_cases conversion : key = "conversion"
    · subst conversion
      rw [inner_conversion_of_normalizeKeys read]
      exact Section.nodup_ofPairs _
    · rw [inner_of_normalizeKeys read conversion]
      exact distinct.inner key
  · rw [inner_conversion_of_normalizeKeys read] at inside
    obtain ⟨pair, renamedPair, same⟩ :=
      List.mem_map.mp (Section.mem_keys_ofPairs.mp (List.mem_map_of_mem inside))
    obtain ⟨other, _, rfl⟩ := List.mem_map.mp renamedPair
    exact ⟨other.1, same.symm⟩

theorem given?_of_normalizeKeys (read : normalizeKeys user = .ok normal) (setting : Setting) :
    (normal.inner setting.sectionName).get? setting.name = user.given? setting := by
  cases setting with
  | option switch =>
      rw [Section.given?, Setting.givenIn, ← get?_ofPairs_renamed]
      exact congrArg (Section.get? · _) (inner_conversion_of_normalizeKeys read)
  | _ => exact congrArg (Section.get? · _) (inner_of_normalizeKeys read (by decide))

theorem values_of_ofUserSection (distinct : user.Distinct) (read : ofUserSection user = .ok settings)
    (setting : Setting) : setting.ofGiven (user.given? setting) = .ok (settings.get setting) := by
  unfold ofUserSection at read
  split at read
  next => simp at read
  next normal names =>
    rw [← given?_of_normalizeKeys names]
    exact (describes_of_ofSection (isNormal_of_normalizeKeys distinct names) read).values setting

end Settings

end DollarMath
