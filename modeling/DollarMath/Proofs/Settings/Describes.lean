import DollarMath.Proofs.Results
import DollarMath.Proofs.Settings.Sections
import DollarMath.Settings.Check

/-!
What a section must be like to describe settings, and what settings it describes: each setting on
its own is what the section gives for it, checked, or what it is unless changed.
-/

namespace DollarMath

theorem Switch.name_injective : Function.Injective Switch.name := by
  intro first second same
  cases first <;> cases second <;> first | rfl | exact absurd same (by decide)

inductive Setting where
  | option (switch : Switch)
  | pattern
  | excludedFolders
  | reportEnabled
  | reportPath
deriving DecidableEq, Repr

namespace Setting

def sectionName : Setting → String
  | option _ => "conversion"
  | pattern => "files"
  | excludedFolders => "files"
  | reportEnabled => "report"
  | reportPath => "report"

def name : Setting → String
  | option switch => switch.name
  | pattern => "pattern"
  | excludedFolders => "exclude_dirs"
  | reportEnabled => "enabled"
  | reportPath => "path"

def path (setting : Setting) : List String :=
  [setting.sectionName, setting.name]

theorem path_injective : Function.Injective path := by
  intro first second same
  have names : first.sectionName = second.sectionName ∧ first.name = second.name := by
    simpa [path] using same
  cases first with
  | option switch =>
      cases second with
      | option other => rw [Switch.name_injective names.2]
      | _ => exact absurd names.1 (by simp [sectionName])
  | _ =>
      cases second <;> first | rfl | exact absurd names (by simp [sectionName, name])

end Setting

namespace Settings

def get (settings : Settings) : Setting → Value
  | .option switch => .bool (settings.conversion.get switch)
  | .pattern => .text settings.files.pattern
  | .excludedFolders => .list (settings.files.excludeDirs.map .text)
  | .reportEnabled => .bool settings.report.isEnabled
  | .reportPath => .text settings.report.path

theorem ext_get {first second : Settings} (same : ∀ setting, first.get setting = second.get setting) :
    first = second := by
  have options (switch : Switch) :
      first.conversion.get switch = second.conversion.get switch := by
    simpa [get] using same (.option switch)
  have conversion : first.conversion = second.conversion := by
    rw [Options.mk.injEq]
    exact ⟨options .pasteConversion, options .environments, options .parens, options .squares,
      options .bareTokens, options .formulaLines⟩
  have texts : Function.Injective Value.text := fun left right equal => by simpa using equal
  have folders : first.files.excludeDirs = second.files.excludeDirs := by
    have lists := same .excludedFolders
    rw [get, get, Value.list.injEq] at lists
    exact texts.list_map lists
  have files : first.files = second.files := by
    rw [FileSettings.mk.injEq]
    exact ⟨texts (same .pattern), folders⟩
  have report : first.report = second.report := by
    rw [ReportSettings.mk.injEq]
    exact ⟨by simpa [get] using same .reportEnabled, texts (same .reportPath)⟩
  rw [Settings.mk.injEq]
  exact ⟨conversion, files, report⟩

end Settings

def Setting.check (setting : Setting) (value : Value) : Checked Value :=
  match setting with
  | .option _ => (Settings.checkSwitch setting.path value).map .bool
  | .pattern => (Settings.checkText setting.path value).map .text
  | .excludedFolders =>
    (Settings.checkTexts setting.path value).map fun names => .list (names.map .text)
  | .reportEnabled => (Settings.checkFlag setting.path value).map .bool
  | .reportPath => (Settings.checkText setting.path value).map .text

def Setting.ofGiven (setting : Setting) (given : Option Value) : Checked Value :=
  given.elim (.ok (Settings.get {} setting)) setting.check

/-- A section describes settings: it holds nothing but settings, and each setting is what is given
for it. -/
structure Describes (members : Section) (settings : Settings) : Prop where
  sections : ∀ member ∈ members, ∃ setting : Setting, member.1 = .text setting.sectionName
  known : ∀ (setting : Setting) value, members.get? setting.sectionName = some value →
    ∃ inner, value = .mapping inner ∧
      ∀ member ∈ inner, ∃ other : Setting,
        other.sectionName = setting.sectionName ∧ member.1 = .text other.name
  values : ∀ setting : Setting,
    setting.ofGiven ((members.inner setting.sectionName).get? setting.name) =
      .ok (settings.get setting)

theorem Describes.known_inner {members : Section} {settings : Settings}
    (describes : Describes members settings) (setting : Setting) :
    ∀ member ∈ members.inner setting.sectionName, ∃ other : Setting,
      other.sectionName = setting.sectionName ∧ member.1 = .text other.name := by
  intro member inside
  unfold Section.inner at inside
  split at inside
  next held found =>
    obtain ⟨inner, same, known⟩ := describes.known setting _ found
    obtain rfl := Value.mapping.inj same
    exact known member inside
  next => simp at inside

namespace Checked

variable {α β : Type} {first : Checked α} {second : Checked β}

theorem withIssues_eq_ok {found : List Issue} {value : α} :
    first.withIssues found = .ok value ↔ first = .ok value ∧ found = [] := by
  cases first with
  | ok own =>
      cases found with
      | nil => simp [withIssues, issues]
      | cons issue rest => simp [withIssues, issues]
  | error own =>
      rw [withIssues]
      split <;> simp

theorem both_eq_ok {pair : α × β} :
    first.both second = .ok pair ↔ first = .ok pair.1 ∧ second = .ok pair.2 := by
  cases first <;> cases second <;> simp [both, Prod.ext_iff]

theorem all_eq_ok {checks : List (Checked α)} {values : List α} :
    all checks = .ok values ↔ checks = values.map .ok := by
  induction checks generalizing values with
  | nil => simp [all]
  | cons check checks ih =>
      rw [all, map_eq_ok]
      simp only [both_eq_ok, ih]
      constructor
      · rintro ⟨⟨value, values⟩, ⟨rfl, rfl⟩, rfl⟩
        rfl
      · intro same
        obtain ⟨value, values, rfl, rfl, rfl⟩ := List.map_eq_cons_iff.mp same.symm
        exact ⟨(value, values), ⟨rfl, rfl⟩, rfl⟩

end Checked

namespace Settings

variable {α : Type} {members : Section} {checked : Checked α} {value : α} {fields : List String}

theorem unknownKeys_eq_nil_iff {path : List String} :
    unknownKeys path fields members = [] ↔
      ∀ member ∈ members, ∃ key ∈ fields, member.1 = .text key := by
  rw [unknownKeys, List.filterMap_eq_nil_iff]
  refine forall₂_congr fun member _ => ?_
  cases found : member.1 <;> simp [keyIssue?]

theorem describe_eq_ok {path : List String} :
    describe path fields members checked = .ok value ↔
      (∀ member ∈ members, ∃ key ∈ fields, member.1 = .text key) ∧ checked = .ok value := by
  rw [describe]
  split
  next malformed =>
    obtain ⟨member, inside, isBad⟩ := List.any_eq_true.mp malformed
    refine iff_of_false (by simp [Checked.fail]) fun ⟨texts, _⟩ => ?_
    obtain ⟨key, _, isText⟩ := texts member inside
    rw [isText] at isBad
    exact absurd isBad (by simp [isMalformed])
  next => rw [Checked.withIssues_eq_ok, unknownKeys_eq_nil_iff, and_comm]

theorem field_eq_ok {path : List String} {key : String} {fallback : α}
    {check : List String → Value → Checked α} :
    field path members key fallback check = .ok value ↔
      (members.get? key).elim (.ok fallback) (check (path ++ [key])) = .ok value := by
  rw [field]
  cases members.get? key <;> rfl

theorem get_setSwitches {options : Options} {pairs : List (Switch × Bool)} {switch : Switch}
    {value : Bool} (agree : ∀ pair ∈ pairs, pair.1 = switch → pair.2 = value)
    (given : (∃ pair ∈ pairs, pair.1 = switch) ∨ options.get switch = value) :
    (setSwitches options pairs).get switch = value := by
  induction pairs generalizing options with
  | nil => simpa [setSwitches] using given
  | cons pair rest ih =>
      obtain ⟨own, others⟩ := List.forall_mem_cons.mp agree
      rw [setSwitches]
      refine ih others ?_
      rw [Options.get_set]
      by_cases here : switch = pair.1
      · exact .inr (by rw [if_pos here, own here.symm])
      · rcases given with ⟨other, member, same⟩ | already
        · rcases List.mem_cons.mp member with rfl | later
          · exact absurd same.symm here
          · exact .inl ⟨other, later, same⟩
        · exact .inr (by rwa [if_neg here])

/-- Switches are read under their names with underscores from a section that has no other ones. -/
theorem checkOptions_eq_ok {path : List String} {options : Options}
    (lower : ∀ switch : Switch, Section.contains members (KeyCase.camel switch.name) = false)
    (passed : checkOptions path (.mapping members) = .ok options) :
    (∀ member ∈ members, ∃ switch : Switch, member.1 = .text switch.name) ∧
      ∀ switch : Switch, field path members switch.name (Options.get {} switch) checkSwitch =
        .ok (options.get switch) := by
  have keys : switchKey members = Switch.name := by
    funext switch
    simp [switchKey, lower switch]
  simp only [checkOptions, keys, describe_eq_ok, map_eq_ok, Checked.all_eq_ok] at passed
  obtain ⟨known, pairs, checks, rfl⟩ := passed
  refine ⟨fun member inside => ?_, fun switch => ?_⟩
  · obtain ⟨name, isName, text⟩ := known member inside
    obtain ⟨switch, _, rfl⟩ := List.mem_map.mp isName
    exact ⟨switch, text⟩
  · have own : (field path members switch.name (Options.get {} switch) checkSwitch).map
        (fun value => (switch, value)) ∈ pairs.map .ok := by
      rw [← checks]
      exact List.mem_map.mpr ⟨switch, Switch.mem_all switch, rfl⟩
    obtain ⟨pair, member, same⟩ := List.mem_map.mp own
    obtain ⟨value, read, rfl⟩ := map_eq_ok.mp same.symm
    rw [read, Except.ok.injEq, eq_comm]
    refine get_setSwitches (fun other inside here => ?_) (.inl ⟨_, member, rfl⟩)
    have again : (.ok other : Checked (Switch × Bool)) ∈ pairs.map .ok :=
      List.mem_map_of_mem inside
    rw [← checks] at again
    obtain ⟨next, _, equal⟩ := List.mem_map.mp again
    obtain ⟨found, nextRead, rfl⟩ := map_eq_ok.mp equal
    obtain rfl : next = switch := here
    rw [read, Except.ok.injEq] at nextRead
    exact nextRead.symm

theorem checkFiles_eq_ok {path : List String} {files : FileSettings}
    (passed : checkFiles path (.mapping members) = .ok files) :
    (∀ member ∈ members, member.1 = .text "pattern" ∨ member.1 = .text "exclude_dirs") ∧
      field path members "pattern" { : FileSettings }.pattern checkText = .ok files.pattern ∧
      field path members "exclude_dirs" { : FileSettings }.excludeDirs checkTexts =
        .ok files.excludeDirs := by
  simp only [checkFiles, describe_eq_ok, map_eq_ok, Checked.both_eq_ok] at passed
  obtain ⟨known, ⟨pattern, folders⟩, ⟨readPattern, readFolders⟩, rfl⟩ := passed
  exact ⟨fun member inside => by simpa using known member inside, readPattern, readFolders⟩

theorem checkReport_eq_ok {path : List String} {report : ReportSettings}
    (passed : checkReport path (.mapping members) = .ok report) :
    (∀ member ∈ members, member.1 = .text "enabled" ∨ member.1 = .text "path") ∧
      field path members "enabled" { : ReportSettings }.isEnabled checkFlag =
        .ok report.isEnabled ∧
      field path members "path" { : ReportSettings }.path checkText = .ok report.path := by
  simp only [checkReport, describe_eq_ok, map_eq_ok, Checked.both_eq_ok] at passed
  obtain ⟨known, ⟨enabled, target⟩, ⟨readEnabled, readTarget⟩, rfl⟩ := passed
  exact ⟨fun member inside => by simpa using known member inside, readEnabled, readTarget⟩

theorem field_section_eq_ok {key : String} {fallback : α}
    {check : List String → Value → Checked α}
    (sections : ∀ path value part, check path value = .ok part → ∃ inner, value = .mapping inner)
    (empty : ∀ path, check path (.mapping []) = .ok fallback)
    (passed : field [] members key fallback check = .ok value) :
    (∀ held, members.get? key = some held → ∃ inner, held = .mapping inner) ∧
      check [key] (.mapping (members.inner key)) = .ok value := by
  rw [field_eq_ok] at passed
  rw [Section.inner]
  cases found : members.get? key with
  | none =>
      rw [found] at passed
      exact ⟨by simp, by simpa using (empty [key]).trans passed⟩
  | some held =>
      rw [found] at passed
      obtain ⟨inner, rfl⟩ := sections _ _ _ passed
      exact ⟨by simp, passed⟩

theorem exists_mapping_of_checkOptions {path : List String} {value : Value} {options : Options}
    (passed : checkOptions path value = .ok options) : ∃ inner, value = .mapping inner := by
  cases value <;> simp_all [checkOptions, Checked.fail]

theorem exists_mapping_of_checkFiles {path : List String} {value : Value} {files : FileSettings}
    (passed : checkFiles path value = .ok files) : ∃ inner, value = .mapping inner := by
  cases value <;> simp_all [checkFiles, Checked.fail]

theorem exists_mapping_of_checkReport {path : List String} {value : Value} {report : ReportSettings}
    (passed : checkReport path value = .ok report) : ∃ inner, value = .mapping inner := by
  cases value <;> simp_all [checkReport, Checked.fail]

theorem forall_inner {key : Scalar} {accepts : Scalar × Value → Prop}
    (sections : ∀ held, members.get? key = some held → ∃ inner, held = .mapping inner)
    (all : ∀ member ∈ members.inner key, accepts member) :
    ∀ held, members.get? key = some held →
      ∃ inner, held = .mapping inner ∧ ∀ member ∈ inner, accepts member := by
  intro held found
  obtain ⟨inner, rfl⟩ := sections held found
  exact ⟨inner, rfl, fun member inside => all member (by rwa [Section.inner, found])⟩

theorem elim_of_field {path : List String} {key : String} {fallback : α}
    {check : List String → Value → Checked α} (make : α → Value)
    (passed : field path members key fallback check = .ok value) :
    (members.get? key).elim (.ok (make fallback)) (fun held => (check (path ++ [key]) held).map make) =
      .ok (make value) := by
  rw [field_eq_ok] at passed
  cases found : members.get? key with
  | none =>
      rw [found, Option.elim_none, Except.ok.injEq] at passed
      rw [passed]
      rfl
  | some held =>
      rw [found, Option.elim_some] at passed
      rw [Option.elim_some, passed]
      rfl

theorem describes_of_check {settings : Settings}
    (lower : ∀ switch : Switch,
      (members.inner "conversion").contains (KeyCase.camel switch.name) = false)
    (passed : check members = .ok settings) : Describes members settings := by
  simp only [check, describe_eq_ok, map_eq_ok, Checked.both_eq_ok] at passed
  obtain ⟨known, ⟨options, files, report⟩, ⟨readOptions, readFiles, readReport⟩, rfl⟩ := passed
  have conversion := field_section_eq_ok (fun _ _ _ => exists_mapping_of_checkOptions)
    (fun _ => rfl) readOptions
  have filesPart := field_section_eq_ok (fun _ _ _ => exists_mapping_of_checkFiles) (fun _ => rfl)
    readFiles
  have reportPart := field_section_eq_ok (fun _ _ _ => exists_mapping_of_checkReport) (fun _ => rfl)
    readReport
  obtain ⟨optionKeys, optionValues⟩ := checkOptions_eq_ok lower conversion.2
  obtain ⟨fileKeys, pattern, folders⟩ := checkFiles_eq_ok filesPart.2
  obtain ⟨reportKeys, enabled, target⟩ := checkReport_eq_ok reportPart.2
  refine ⟨fun member here => ?_, fun setting => ?_, fun setting => ?_⟩
  · obtain ⟨key, isSection, isKey⟩ := known member here
    rcases (by simpa using isSection) with rfl | rfl | rfl
    · exact ⟨.option .parens, isKey⟩
    · exact ⟨.pattern, isKey⟩
    · exact ⟨.reportEnabled, isKey⟩
  · cases setting with
    | option =>
        refine forall_inner conversion.1 fun member here => ?_
        obtain ⟨switch, isName⟩ := optionKeys member here
        exact ⟨.option switch, rfl, isName⟩
    | pattern | excludedFolders =>
        refine forall_inner filesPart.1 fun member here => ?_
        rcases fileKeys member here with isName | isName
        · exact ⟨.pattern, rfl, isName⟩
        · exact ⟨.excludedFolders, rfl, isName⟩
    | reportEnabled | reportPath =>
        refine forall_inner reportPart.1 fun member here => ?_
        rcases reportKeys member here with isName | isName
        · exact ⟨.reportEnabled, rfl, isName⟩
        · exact ⟨.reportPath, rfl, isName⟩
  · cases setting with
    | option switch => exact elim_of_field Value.bool (optionValues switch)
    | pattern => exact elim_of_field Value.text pattern
    | excludedFolders => exact elim_of_field (fun names => Value.list (names.map .text)) folders
    | reportEnabled => exact elim_of_field Value.bool enabled
    | reportPath => exact elim_of_field Value.text target

end Settings

end DollarMath
