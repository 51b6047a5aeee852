import DollarMath.Proofs.Settings.Loaded

/-!
What the settings in force are, name by name: the values that the user's file gives, however it spells
the names of the switches, and the defaults where it gives none.
-/

namespace DollarMath

def Switch.IsSpelled (switch : Switch) (key : Scalar) : Prop :=
  ∃ spelled, key = .text spelled ∧ KeyCase.snake spelled = switch.name

def Checked.Takes {α : Type} (check : Value → Checked α) (default : α) (given : Option Value)
    (value : α) : Prop :=
  given.elim (value = default) fun held => check held = .ok value

/-- A section resolves to settings: a switch is what the last of its spellings leads to, another
setting what its name leads to, and either is what it is unless changed if there is none. -/
structure Section.Resolves (members : Section) (settings : Settings) : Prop where
  sections : ∀ (setting : Setting) value, members.get? setting.sectionName = some value →
    ∃ inner, value = .mapping inner
  switches : ∀ switch : Switch,
    (∃ front key back,
      members.inner "conversion" =
          front ++ (key, .bool (settings.conversion.get switch)) :: back ∧
        switch.IsSpelled key ∧ ∀ member ∈ back, ¬switch.IsSpelled member.1) ∨
      ((∀ member ∈ members.inner "conversion", ¬switch.IsSpelled member.1) ∧
        settings.conversion.get switch = Options.get {} switch)
  pattern : Checked.Takes (Settings.checkText ["files", "pattern"]) { : FileSettings }.pattern
    ((members.inner "files").get? "pattern") settings.files.pattern
  excluded : Checked.Takes (Settings.checkTexts ["files", "exclude_dirs"])
    { : FileSettings }.excludeDirs ((members.inner "files").get? "exclude_dirs")
    settings.files.excludeDirs
  enabled : Checked.Takes (Settings.checkFlag ["report", "enabled"]) { : ReportSettings }.isEnabled
    ((members.inner "report").get? "enabled") settings.report.isEnabled
  target : Checked.Takes (Settings.checkText ["report", "path"]) { : ReportSettings }.path
    ((members.inner "report").get? "path") settings.report.path

theorem Checked.takes_of_elim {α : Type} {check : Value → Checked α} {default value : α}
    {given : Option Value} {make : α → Value} (injective : Function.Injective make)
    (made : given.elim (.ok (make default)) (fun held => (check held).map make) = .ok (make value)) :
    Takes check default given value := by
  cases given with
  | none => exact injective (Except.ok.inj made).symm
  | some held =>
      obtain ⟨found, checked, same⟩ := map_eq_ok.mp made
      exact injective same ▸ checked

namespace Settings

variable {file : Option Bytes} {members : Section} {settings : Settings}

theorem exists_mapping_of_ofUserSection (distinct : members.Distinct)
    (read : ofUserSection members = .ok settings) (setting : Setting) (value : Value)
    (found : members.get? setting.sectionName = some value) : ∃ inner, value = .mapping inner := by
  unfold ofUserSection at read
  split at read
  next => simp at read
  next normal names =>
    by_contra plain
    have describes := describes_of_ofSection (isNormal_of_normalizeKeys distinct names) read
    obtain ⟨inner, same, _⟩ := describes.known setting value
      (get?_of_normalizeKeys_of_plain names found (not_exists.mp plain))
    exact plain ⟨inner, same⟩

theorem checkSwitch_eq_ok {path : List String} {value : Value} {on : Bool} :
    checkSwitch path value = .ok on ↔ value = .bool on := by
  rw [checkSwitch.eq_def]
  split
  next => simp
  next other => exact iff_of_false (by simp [Checked.fail]) fun same => other on same

theorem switch_of_takes {switch : Switch} {inner : Section} {path : List String} {default on : Bool}
    (takes : Checked.Takes (checkSwitch path) default (lastNamed? (.text switch.name) inner) on) :
    (∃ front key back, inner = front ++ (key, .bool on) :: back ∧
        switch.IsSpelled key ∧ ∀ member ∈ back, ¬switch.IsSpelled member.1) ∨
      ((∀ member ∈ inner, ¬switch.IsSpelled member.1) ∧ on = default) := by
  cases found : lastNamed? (.text switch.name) inner with
  | none =>
      rw [found] at takes
      refine .inr ⟨fun member inside spelled => ?_, takes⟩
      exact lastNamed?_eq_none_iff.mp found member inside (normalName_eq_text_iff.mpr spelled)
  | some held =>
      rw [found] at takes
      obtain rfl := checkSwitch_eq_ok.mp takes
      obtain ⟨front, key, back, split, same, others⟩ := lastNamed?_eq_some_iff.mp found
      refine .inl ⟨front, key, back, split, normalName_eq_text_iff.mp same, ?_⟩
      exact fun member inside spelled => others member inside (normalName_eq_text_iff.mpr spelled)

theorem resolves_of_ofUserSection (distinct : members.Distinct)
    (read : ofUserSection members = .ok settings) : members.Resolves settings := by
  have values := values_of_ofUserSection distinct read
  have texts : Function.Injective Value.text := fun first second same => by simpa using same
  have flags : Function.Injective Value.bool := fun first second same => by simpa using same
  have lists : Function.Injective fun names : List String => Value.list (names.map .text) :=
    fun first second same => texts.list_map (Value.list.inj same)
  exact {
    sections := exists_mapping_of_ofUserSection distinct read
    switches := fun switch =>
      switch_of_takes (Checked.takes_of_elim flags (values (.option switch)))
    pattern := Checked.takes_of_elim texts (values .pattern)
    excluded := Checked.takes_of_elim lists (values .excludedFolders)
    enabled := Checked.takes_of_elim flags (values .reportEnabled)
    target := Checked.takes_of_elim texts (values .reportPath) }

/-- The section in the user's file resolves to the settings in force. -/
theorem resolves_of_load (loads : load file = .ok settings) :
    ∃ user members, held file = .ok user ∧ userSection user = .ok members ∧
      members.Resolves settings := by
  obtain ⟨user, holds, made⟩ := load_eq_ok.mp loads
  obtain ⟨members, isSection, read⟩ := ofUser_eq_ok.mp made
  have distinct := distinct_of_userSection (distinct_of_held holds) isSection
  exact ⟨user, members, holds, isSection, resolves_of_ofUserSection distinct read⟩

def parensMixed : Section :=
  [("conversion", .mapping [("plain-parens-as-delimiters", .bool false),
    ("plainParensAsDelimiters", .bool true)])]

/-- Of two spellings of a switch the later one counts. -/
theorem resolves_of_load_parens :
    let file := "conversion:\n  plain-parens-as-delimiters: false\n  plainParensAsDelimiters: true\n"
    let settings : Settings := { conversion := { parens := true } }
    load (some (Utf8.encode file.toList)) = .ok settings ∧ parensMixed.Resolves settings := by
  intro file settings
  have means : Yaml.Node.toValue (.mapping .mapping [(Yaml.plainNode ⟨"conversion".toList, false⟩,
      .mapping .mapping [(Yaml.plainNode ⟨"plain-parens-as-delimiters".toList, false⟩,
        Yaml.plainNode ⟨"false".toList, false⟩),
        (Yaml.plainNode ⟨"plainParensAsDelimiters".toList, false⟩,
        Yaml.plainNode ⟨"true".toList, false⟩)])]) = .ok (.mapping parensMixed) :=
    eq_ok_of_toOption (by decide +kernel)
  have holds : held (some (Utf8.encode file.toList)) = .ok (.mapping parensMixed) :=
    userValue_of_tokens (by decide +kernel) (Yaml.ofTokens?_members _ _ _ _ _) means
  have loads : load (some (Utf8.encode file.toList)) = .ok settings :=
    load_eq_ok.mpr ⟨_, holds, eq_ok_of_toOption (by decide +kernel)⟩
  obtain ⟨user, members, again, isSection, resolves⟩ := resolves_of_load loads
  obtain rfl := Except.ok.inj (holds.symm.trans again)
  obtain rfl : parensMixed = members := Except.ok.inj isSection
  exact ⟨loads, resolves⟩

end Settings

end DollarMath
