import DollarMath.Proofs.Settings.Effective
import DollarMath.Settings.Change

/-!
Changing one setting in a user's section: the section that results describes settings, and of those
only the one can differ that the key leads to. It takes the new value, unless the section goes on
with another spelling of the same key.
-/

namespace DollarMath

namespace Settings

variable {members put user : Section} {value : Value} {key text : String}

def nameIn (first second : String) : String :=
  if first = "conversion" then KeyCase.snake second else second

def addressed (key : String) : List String :=
  match keyPath key with
  | [first, second] => [first, nameIn first second]
  | path => path

/-- The key leads to a spelling of a switch in the section, and another spelling follows it. -/
def IsShadowed (user : Section) (key : String) : Prop :=
  ∃ name rest, keyPath key = "conversion" :: name :: rest ∧
    Shadowed (.text name) (user.inner "conversion")

theorem keyPath_ne_nil (key : String) : keyPath key ≠ [] := by
  rw [keyPath, Ne, List.map_eq_nil_iff]
  cases key.toList with
  | nil => simp [Text.splitAt]
  | cons char rest =>
      rw [Text.splitAt]
      split
      · simp
      · cases Text.splitAt '.' rest <;> simp [Text.consLine]

theorem parseValue_plain (read : parseValue text = .ok value) (inner : Section) :
    value ≠ .mapping inner := by
  rintro rfl
  unfold parseValue at read
  dsimp only at read
  split at read
  · simp at read
  · split at read
    · simp at read
    · split at read
      · rw [mapError_eq_ok, map_eq_ok] at read
        obtain ⟨_, _, same⟩ := read
        simp at same
      · simp at read

theorem putAt_step {read : Except ChangeError Value} {first second : String} {rest : List String}
    (done : putAt read members (first :: second :: rest) = .ok put) :
    ∃ inner, putAt read (members.inner first) (second :: rest) = .ok inner ∧
      members.put first (.mapping inner) = put := by
  unfold putAt at done
  unfold Section.inner
  split at done
  next noSection => simpa [noSection] using map_eq_ok.mp done
  next held found => simpa [found] using map_eq_ok.mp done
  next => simp at done

/-- Putting a value further in changes one member of one section, which becomes a section itself
unless it is the last on the way. -/
theorem putAt_cons {read : Except ChangeError Value} {first second : String} {rest : List String}
    (done : putAt read members (first :: second :: rest) = .ok put) :
    ∃ new, members.put first (.mapping ((members.inner first).put second new)) = put ∧
      ((rest = [] ∧ read = .ok new) ∨ (rest ≠ [] ∧ ∃ inner, new = .mapping inner)) := by
  obtain ⟨inner, within, rfl⟩ := putAt_step done
  cases rest with
  | nil =>
      obtain ⟨value, rfl, rfl⟩ := map_eq_ok.mp within
      exact ⟨value, rfl, .inl ⟨rfl, rfl⟩⟩
  | cons third others =>
      obtain ⟨deeper, _, rfl⟩ := putAt_step within
      exact ⟨.mapping deeper, rfl, .inr ⟨by simp, deeper, rfl⟩⟩

theorem change_eq_ok {user : Value} {changed : Section} :
    change user key text = .ok changed →
      ∃ members put, userSection user = .ok members ∧
        putAt (parseValue text) members (keyPath key) = .ok put ∧
        normalizeKeys put = .ok changed ∧
        ∃ settings, ofSection (Section.merge defaults changed) = .ok settings := by
  intro done
  unfold change at done
  dsimp only at done
  split at done
  next => simp at done
  next => simp at done
  next members isSection =>
    obtain ⟨put, putEq, done⟩ := bind_eq_ok.mp done
    split at done
    next => simp at done
    next normal names =>
      split at done
      next settings read =>
        obtain rfl := Except.ok.inj done
        exact ⟨members, put, isSection, putEq, names, settings, read⟩
      next => simp at done

theorem inner_put (members : Section) (first other : Scalar) (value : Value) :
    (members.put first value).inner other =
      if other = first then value.members else members.inner other := by
  rw [Section.inner_eq, Section.get?_put, Section.inner_eq]
  split <;> rfl

theorem distinct_put (distinct : members.Distinct) (first : Scalar)
    (inner : (Section.keys value.members).Nodup) : (members.put first value).Distinct := by
  refine ⟨Section.nodup_put distinct.outer, fun other => ?_⟩
  rw [inner_put]
  split
  · exact inner
  · exact distinct.inner other

section Put

variable {first second : String} {inner : Section} {setting : Setting}

theorem givenIn_put_of_ne (other : nameIn setting.sectionName second ≠ setting.name) (new : Value) :
    setting.givenIn (inner.put second new) = setting.givenIn inner := by
  cases setting with
  | option switch =>
      refine lastNamed?_put_of_ne ?_ new inner
      simpa [normalName, nameIn, Setting.sectionName, Setting.name] using other
  | _ =>
      refine (Section.get?_put _ _ _ _).trans (if_neg ?_)
      simpa [nameIn, Setting.sectionName, eq_comm] using other

theorem givenIn_put (named : nameIn setting.sectionName second = setting.name)
    (free : setting.sectionName = "conversion" → ¬Shadowed (.text second) inner) (new : Value) :
    setting.givenIn (inner.put second new) = some new := by
  cases setting with
  | option switch =>
      rw [nameIn, Setting.sectionName, if_pos rfl] at named
      have last := lastNamed?_put (free rfl) new
      rwa [normalName, named] at last
  | _ =>
      refine (Section.get?_put _ _ _ _).trans (if_pos ?_)
      simpa [nameIn, Setting.sectionName, eq_comm] using named

theorem givenIn_put_of_shadowed (conversion : setting.sectionName = "conversion")
    (distinct : (Section.keys inner).Nodup) (shadowed : Shadowed (.text second) inner) (new : Value) :
    setting.givenIn (inner.put second new) = setting.givenIn inner := by
  obtain ⟨switch, rfl⟩ := Setting.eq_option_of_sectionName conversion
  exact lastNamed?_put_of_shadowed distinct shadowed _ new

theorem given?_put (members : Section) (first second : String) (new : Value) (setting : Setting) :
    (members.put first (.mapping ((members.inner first).put second new))).given? setting =
      if setting.sectionName = first then
        setting.givenIn ((members.inner setting.sectionName).put second new)
      else members.given? setting := by
  rw [Section.given?, inner_put]
  by_cases same : setting.sectionName = first
  · rw [if_pos same, if_pos (congrArg Scalar.text same), same]
    rfl
  · rw [if_neg same, if_neg fun equal => same (Scalar.text.inj equal)]
    rfl

theorem given?_put_of_ne (other : setting.path ≠ [first, nameIn first second]) (new : Value) :
    (members.put first (.mapping ((members.inner first).put second new))).given? setting =
      members.given? setting := by
  rw [given?_put]
  split
  next same =>
    refine givenIn_put_of_ne (fun named => other ?_) new
    rw [Setting.path, ← same, named]
  next => rfl

theorem given?_put_of_path (own : setting.path = [first, nameIn first second])
    (free : ¬(first = "conversion" ∧ Shadowed (.text second) (members.inner "conversion")))
    (new : Value) :
    (members.put first (.mapping ((members.inner first).put second new))).given? setting =
      some new := by
  obtain ⟨rfl, named⟩ : setting.sectionName = first ∧ setting.name = nameIn first second := by
    simpa [Setting.path] using own
  rw [given?_put, if_pos rfl]
  refine givenIn_put named.symm (fun conversion shadowed => free ⟨conversion, ?_⟩) new
  rwa [← conversion]

theorem given?_put_of_shadowed (distinct : members.Distinct)
    (shadowed : Shadowed (.text second) (members.inner "conversion")) (new : Value) :
    (members.put "conversion" (.mapping ((members.inner "conversion").put second new))).given?
      setting = members.given? setting := by
  rw [given?_put]
  split
  next conversion =>
    refine givenIn_put_of_shadowed conversion (distinct.inner _) ?_ new
    rwa [conversion]
  next => rfl

end Put

/-- A change that succeeds gives a section that describes settings, and that section is as it would
be read again. -/
theorem exists_settings_of_change {changed : Section} (distinct : put.Distinct)
    (names : normalizeKeys put = .ok changed) {settings : Settings}
    (read : ofSection (Section.merge defaults changed) = .ok settings) :
    ofUserSection changed = .ok settings ∧ Describes changed settings ∧
      ∀ setting : Setting, setting.ofGiven (put.given? setting) = .ok (settings.get setting) := by
  have isNormal := isNormal_of_normalizeKeys distinct names
  have describes := describes_of_ofSection isNormal read
  refine ⟨?_, describes, fun setting => ?_⟩
  · rw [ofUserSection, normalizeKeys_of_describes isNormal describes]
    exact read
  · rw [← given?_of_normalizeKeys names]
    exact describes.values setting

theorem not_describes_put_plain {changed : Section} {settings : Settings} {first : String}
    (plain : ∀ inner, value ≠ .mapping inner)
    (names : normalizeKeys (members.put first value) = .ok changed) :
    ¬Describes changed settings := by
  intro describes
  have found : (members.put first value).get? first = some value := by simp [Section.get?_put]
  have stays := get?_of_normalizeKeys_of_plain names found plain
  obtain ⟨setting, isSection⟩ := describes.sections _ (Section.mem_of_get? stays)
  obtain rfl : first = setting.sectionName := Scalar.text.inj isSection
  obtain ⟨inner, same, _⟩ := describes.known setting value stays
  exact plain inner same

theorem exists_setting_of_put {changed inner : Section} {settings : Settings} {first second : String}
    {new : Value}
    (names : normalizeKeys (members.put first (.mapping (inner.put second new))) = .ok changed)
    (describes : Describes changed settings) :
    ∃ setting : Setting, setting.path = [first, nameIn first second] := by
  have isKey : (.text first : Scalar) ∈ Section.keys changed := by
    rw [mem_keys_of_normalizeKeys names, Section.mem_keys_put]
    exact .inl rfl
  obtain ⟨member, inside, isFirst⟩ := List.mem_map.mp isKey
  obtain ⟨group, isSection⟩ := describes.sections member inside
  obtain rfl : first = group.sectionName := Scalar.text.inj (isFirst ▸ isSection)
  have isName : (.text (nameIn group.sectionName second) : Scalar) ∈
      Section.keys (changed.inner group.sectionName) := by
    have own : (.text second : Scalar) ∈ Section.keys (inner.put second new) :=
      (Section.mem_keys_put ..).mpr (.inl rfl)
    by_cases conversion : group.sectionName = "conversion"
    · rw [conversion] at names
      rw [conversion, inner_conversion_of_normalizeKeys names, inner_put, if_pos rfl,
        Section.mem_keys_ofPairs, nameIn, if_pos rfl]
      obtain ⟨pair, isPair, same⟩ := List.mem_map.mp own
      refine List.mem_map.mpr ⟨_, List.mem_map_of_mem isPair, ?_⟩
      rw [same, normalName]
    · rwa [inner_of_normalizeKeys names (by simpa using conversion), inner_put, if_pos rfl,
        nameIn, if_neg conversion]
  obtain ⟨pair, isPair, same⟩ := List.mem_map.mp isName
  obtain ⟨setting, sameSection, name⟩ := describes.known_inner group pair isPair
  refine ⟨setting, ?_⟩
  rw [Setting.path, sameSection, Scalar.text.inj (name.symm.trans same)]

theorem isShadowed_iff {first second : String} {rest : List String}
    (path : keyPath key = first :: second :: rest) :
    IsShadowed user key ↔
      first = "conversion" ∧ Shadowed (.text second) (user.inner "conversion") := by
  constructor
  · rintro ⟨name, others, same, shadowed⟩
    rw [path, List.cons.injEq, List.cons.injEq] at same
    obtain ⟨isFirst, rfl, _⟩ := same
    exact ⟨isFirst, shadowed⟩
  · rintro ⟨rfl, shadowed⟩
    exact ⟨second, rest, path, shadowed⟩

/-- The settings after a change. Only the setting that the key is about may differ from what is given
for it before, and it takes the new value unless another spelling of it follows. -/
theorem change_settings {user : Value} {changed : Section} (isSection : userSection user = .ok members)
    (distinct : members.Distinct) (done : change user key text = .ok changed) :
    ∃ settings, ofUserSection changed = .ok settings ∧
      (∀ setting : Setting, setting.path ≠ addressed key ∨ IsShadowed members key →
        setting.ofGiven (members.given? setting) = .ok (settings.get setting)) ∧
      (¬IsShadowed members key → ∃ (setting : Setting) (value : Value),
        setting.path = addressed key ∧ parseValue text = .ok value ∧
          setting.check value = .ok (settings.get setting)) := by
  obtain ⟨again, put, isSection', putEq, names, settings, read⟩ := change_eq_ok done
  obtain rfl : members = again := by simpa [isSection] using isSection'
  match path : keyPath key with
  | [] => exact absurd path (keyPath_ne_nil key)
  | [first] =>
      rw [path, putAt, map_eq_ok] at putEq
      obtain ⟨value, parsed, rfl⟩ := putEq
      have plain := parseValue_plain parsed
      have inner : (Section.keys value.members).Nodup := by
        cases value with
        | mapping inner => exact absurd rfl (plain inner)
        | _ => exact List.nodup_nil
      obtain ⟨_, describes, _⟩ :=
        exists_settings_of_change (distinct_put distinct first inner) names read
      exact absurd describes (not_describes_put_plain plain names)
  | first :: second :: rest =>
      rw [path] at putEq
      obtain ⟨new, rfl, kind⟩ := putAt_cons putEq
      have inner :
          (Section.keys (Value.members (.mapping ((members.inner first).put second new)))).Nodup :=
        Section.nodup_put (distinct.inner first)
      obtain ⟨again, describes, values⟩ :=
        exists_settings_of_change (distinct_put distinct first inner) names read
      -- What the setting of these two keys takes is the new value itself, never a section.
      have takes (setting : Setting) (own : setting.path = [first, nameIn first second])
          (free : ¬IsShadowed members key) :
          addressed key = setting.path ∧ parseValue text = .ok new ∧
            setting.check new = .ok (settings.get setting) := by
        have value := values setting
        rw [given?_put_of_path own ((isShadowed_iff path).not.mp free)] at value
        rcases kind with ⟨rfl, parsed⟩ | ⟨_, held, rfl⟩
        · exact ⟨by rw [own, addressed, path], parsed, value⟩
        · exact absurd value (setting.check_mapping_ne_ok held _)
      refine ⟨settings, again, fun setting other => ?_, fun free => ?_⟩
      · by_cases shadowed : IsShadowed members key
        · obtain ⟨rfl, later⟩ := (isShadowed_iff path).mp shadowed
          rw [← given?_put_of_shadowed distinct later new]
          exact values setting
        · rw [or_iff_left shadowed] at other
          rw [← given?_put_of_ne (fun own => other (takes setting own shadowed).1.symm) new]
          exact values setting
      · obtain ⟨setting, own⟩ := exists_setting_of_put names describes
        obtain ⟨isPath, parsed, value⟩ := takes setting own free
        exact ⟨setting, new, isPath.symm, parsed, value⟩

end Settings

end DollarMath
