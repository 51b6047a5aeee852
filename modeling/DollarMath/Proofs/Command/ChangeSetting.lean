import DollarMath.Proofs.Command.Steps
import DollarMath.Proofs.Files.Written
import DollarMath.Proofs.Settings.Loaded
import DollarMath.Proofs.Text.Utf8
import Mathlib

/-!
What the command does that changes a setting: either it fails and leaves every file as it is, or the
file that it writes gives settings of which only the one differs that the key is about.
-/

namespace DollarMath

def Disk.KeepsFiles (before after : Disk) : Prop :=
  ∀ place, after.content? place = before.content? place

namespace Command

open Step

def ShowsChange (key text : String) : Prop :=
  ∃ line, Console.line s!"[green]Updated {key} = {text}[/green]" = .ok line

variable {session : Session}

theorem run_userValue (session : Session) :
    userValue.run.run session =
      (match session.settingsBytes with
        | .ok file => (Settings.held file).mapError fun error => .broken (.settings error)
        | .error error => .error (.broken (.file error)), session) := by
  rw [userValue, run_bind, run_settingsFile]
  cases session.settingsBytes with
  | error error => rfl
  | ok file =>
      cases file with
      | none => rfl
      | some bytes =>
          rw [mapError_ok]
          simp only [Settings.held, Option.elim_some]
          cases Settings.userValue bytes <;> rfl

theorem saveSettings_cases (members : Section) (session : Session) :
    (∃ stop disk, (saveSettings members).run.run session = (.error stop, { session with disk }) ∧
      session.disk.KeepsFiles disk) ∨
    ∃ (made disk : Disk), (saveSettings members).run.run session = (.ok (), { session with disk }) ∧
      made.writeText session.settingsPath (Yaml.write (.mapping members)).toList = .ok disk := by
  have keeps := session.disk.content?_ensureFolders session.settingsPath.parent
  rw [saveSettings, run_bind, run_get]
  dsimp only
  generalize session.disk.ensureFolders session.settingsPath.parent = folders at keeps ⊢
  obtain ⟨made, fault?⟩ := folders
  dsimp only
  rw [run_bind, run_setDisk]
  cases fault? with
  | some error => exact .inl ⟨_, made, rfl, keeps⟩
  | none =>
      dsimp only
      cases wrote : made.writeText session.settingsPath (Yaml.write (.mapping members)).toList with
      | error error => exact .inl ⟨_, made, rfl, keeps⟩
      | ok disk => exact .inr ⟨made, disk, rfl, wrote⟩

theorem runChangeSetting_of_change {key text : String} {file : Option Bytes} {user : Value}
    {changed : Section} (bytes : session.settingsBytes = .ok file)
    (holds : Settings.held file = .ok user) (done : Settings.change user key text = .ok changed) :
    (runChangeSetting key text).run.run session =
      (saveSettings changed >>= fun _ =>
        say s!"[green]Updated {key} = {text}[/green]").run.run session := by
  rw [runChangeSetting, run_bind, run_userValue, bytes]
  dsimp only
  rw [holds]
  simp only [mapError_ok, done]

/-- The command fails and leaves all files as they are, or it writes the changed section. -/
theorem runChangeSetting_cases {key text line : String} (session : Session)
    (shown : Console.line s!"[green]Updated {key} = {text}[/green]" = .ok line) :
    ∃ disk output,
      (∃ stop, (runChangeSetting key text).run.run session =
          (.error stop, { session with disk, output }) ∧ session.disk.KeepsFiles disk) ∨
        (runChangeSetting key text).run.run session = (.ok (), { session with disk, output }) ∧
          ∃ file user changed, session.settingsBytes = .ok file ∧ Settings.held file = .ok user ∧
            Settings.change user key text = .ok changed ∧ ∃ made : Disk,
              made.writeText session.settingsPath (Yaml.write (.mapping changed)).toList =
                .ok disk := by
  have kept : session.disk.KeepsFiles session.disk := fun _ => rfl
  rw [runChangeSetting, run_bind, run_userValue]
  cases bytes : session.settingsBytes with
  | error error => exact ⟨session.disk, session.output, .inl ⟨_, rfl, kept⟩⟩
  | ok file =>
      dsimp only
      cases holds : Settings.held file with
      | error error => exact ⟨session.disk, session.output, .inl ⟨_, rfl, kept⟩⟩
      | ok user =>
          simp only [mapError_ok]
          split
          next changed done =>
            rw [run_bind]
            rcases saveSettings_cases changed session with
              ⟨stop, disk, failed, keeps⟩ | ⟨made, disk, saved, wrote⟩
            · rw [failed]
              exact ⟨disk, session.output, .inl ⟨_, rfl, keeps⟩⟩
            · rw [saved]
              exact ⟨disk, session.output ++ line.toList, .inr ⟨run_say_of_line shown _, file, user,
                changed, rfl, holds, done, made, wrote⟩⟩
          next name _ =>
            obtain ⟨stop, output, refused⟩ := @disk_refuse Unit s!"{name} is not a section" session
            exact ⟨session.disk, output, .inl ⟨stop, refused, kept⟩⟩
          next issues _ =>
            obtain ⟨stop, output, refused⟩ := @disk_refuse Unit
              s!"cannot set {key} = {escaped text}\n{escaped (issuesMessage issues)}" session
            exact ⟨session.disk, output, .inl ⟨stop, refused, kept⟩⟩
          next => exact ⟨session.disk, session.output, .inl ⟨_, rfl, kept⟩⟩

end Command

namespace Session

variable {session after : Session} {arguments : List String} {key text : String} {ending : Ending}

/-- What is written to the settings file is read from it again as it was. -/
def Rereads (session : Session) (key text : String) : Prop :=
  ∀ file user changed, session.settingsBytes = .ok file → Settings.held file = .ok user →
    Settings.change user key text = .ok changed →
      Settings.userValue (Utf8.encode (Yaml.write (.mapping changed)).toList) =
        .ok (.mapping changed)

/-- A key leads to a spelling of a switch in the settings file, and another spelling follows it. -/
def Shadows (session : Session) (key : String) : Prop :=
  ∃ file, session.settingsBytes = .ok file ∧ Settings.IsShadowedIn file key

theorem settingsBytes_of_write {made : Disk} {bytes : Bytes}
    (wrote : made.write session.settingsPath bytes = .ok session.disk) :
    session.settingsBytes = .ok (some bytes) := by
  obtain ⟨found, there⟩ := Disk.read_of_write wrote
  obtain ⟨node, isThere⟩ := Option.isSome_iff_exists.mp there
  rw [settingsBytes, isThere]
  dsimp only
  rw [found]
  rfl

theorem run_of_asked {command : Command}
    (asked : Command.ofArguments arguments = .ok (.ofCommand (.ok command))) (session : Session) :
    session.run arguments =
      match (command.run.run).run session with
      | (.ok _, after) => (.success, after)
      | (.error stop, after) => (stop.ending, after) := by
  rw [run, asked]
  rfl

section ChangeSetting

variable (asked : Command.ofArguments arguments = .ok (.ofCommand (.ok (.changeSetting key text))))
  (shown : Command.ShowsChange key text)
  (ran : session.run arguments = (ending, after))
include asked shown ran

theorem changeSetting_cases :
    after.settingsPath = session.settingsPath ∧
      ((ending.exitCode = 1 ∧ session.disk.KeepsFiles after.disk) ∨
        (ending.exitCode = 0 ∧ ∃ file user changed, session.settingsBytes = .ok file ∧
          Settings.held file = .ok user ∧ Settings.change user key text = .ok changed ∧
          after.settingsBytes = .ok (some (Utf8.encode (Yaml.write (.mapping changed)).toList)))) := by
  obtain ⟨line, shown⟩ := shown
  rw [run_of_asked asked, Command.run] at ran
  obtain ⟨disk, output, ⟨stop, failed, keeps⟩ |
    ⟨succeeded, file, user, changed, bytes, holds, done, made, wrote⟩⟩ :=
      Command.runChangeSetting_cases session shown
  · rw [failed, Prod.mk.injEq] at ran
    obtain ⟨rfl, rfl⟩ := ran
    refine ⟨rfl, .inl ⟨?_, keeps⟩⟩
    cases stop <;> rfl
  · rw [succeeded, Prod.mk.injEq] at ran
    obtain ⟨rfl, rfl⟩ := ran
    exact ⟨rfl, .inr ⟨rfl, file, user, changed, bytes, holds, done, settingsBytes_of_write wrote⟩⟩

variable (rereads : session.Rereads key text)
include rereads

/-- After a change the settings file gives settings again. Only the one that the key is about may
differ from before, and it takes the new value unless another spelling of it follows. -/
theorem settings_of_changeSetting (succeeded : ending.exitCode = 0) :
    ∃ new, after.HasSettings new ∧
      (∀ old, session.HasSettings old → ∀ setting : Setting,
        setting.path ≠ Settings.addressed key ∨ session.Shadows key →
          new.get setting = old.get setting) ∧
      (¬session.Shadows key → ∃ (setting : Setting) (value : Value),
        setting.path = Settings.addressed key ∧ Settings.parseValue text = .ok value ∧
          setting.check value = .ok (new.get setting)) := by
  rcases (changeSetting_cases asked shown ran).2 with
    ⟨failed, _⟩ | ⟨_, file, user, changed, bytes, holds, done, afterwards⟩
  · rw [failed] at succeeded
    cases succeeded
  · have shadows : session.Shadows key ↔ Settings.IsShadowedIn file key := by
      constructor
      · rintro ⟨_, again, shadowed⟩
        obtain rfl := Except.ok.inj (bytes.symm.trans again)
        exact shadowed
      · exact fun shadowed => ⟨file, bytes, shadowed⟩
    obtain ⟨new, made, others, own⟩ := Settings.load_change holds done
    have loads : Settings.load (some (Utf8.encode (Yaml.write (.mapping changed)).toList)) = .ok new :=
      Settings.load_eq_ok.mpr ⟨_, rereads _ _ _ bytes holds done, made⟩
    refine ⟨new, Command.hasSettings_iff.mpr ⟨_, afterwards, loads⟩, ?_, own ∘ shadows.not.mp⟩
    intro old before setting other
    obtain ⟨_, again, loaded⟩ := Command.hasSettings_iff.mp before
    obtain rfl := Except.ok.inj (bytes.symm.trans again)
    exact others old loaded setting (other.imp_right shadows.mp)

end ChangeSetting

def configured (file : Option String) : Session where
  disk := ⟨.folder (match file with
    | none => []
    | some text => [("home", .folder [("config.yaml", .file (Utf8.encode text.toList))])]), []⟩
  settingsPath := ⟨.here, ["home", "config.yaml"]⟩
  clipboard := none
  input := []
  timing := ⟨"", none⟩

def parensOn : Section := [("conversion", .mapping [("plain_parens_as_delimiters", .bool true)])]

def parensTwice : Section :=
  [("conversion", .mapping [("plainParensAsDelimiters", .bool true),
    ("plain_parens_as_delimiters", .bool true)])]

theorem userValue_parensOn :
    Settings.userValue (Utf8.encode (Yaml.write (.mapping parensOn)).toList) =
      .ok (.mapping parensOn) := by
  have written : Yaml.write (.mapping parensOn) =
      "conversion:\n  plain_parens_as_delimiters: true\n" := by decide +kernel
  have means : Yaml.Node.toValue (.mapping .mapping [(Yaml.plainNode ⟨"conversion".toList, false⟩,
      .mapping .mapping [(Yaml.plainNode ⟨"plain_parens_as_delimiters".toList, false⟩,
        Yaml.plainNode ⟨"true".toList, false⟩)])]) = .ok (.mapping parensOn) :=
    eq_ok_of_toOption (by decide +kernel)
  rw [written]
  exact Settings.userValue_of_tokens (by decide +kernel) (Yaml.ofTokens?_member _ _ _) means

theorem asked_parensOn :
    Command.ofArguments ["config", "set", "conversion.plain_parens_as_delimiters", "true"] =
      .ok (.ofCommand (.ok (.changeSetting "conversion.plain_parens_as_delimiters" "true"))) := rfl

theorem run_parensOn :
    (configured none).Rereads "conversion.plain_parens_as_delimiters" "true" ∧
      Command.ShowsChange "conversion.plain_parens_as_delimiters" "true" ∧
      ∃ ending after,
        (configured none).run ["config", "set", "conversion.plain_parens_as_delimiters", "true"] =
          (ending, after) ∧ ending.exitCode = 0 := by
  have put : Settings.change .null "conversion.plain_parens_as_delimiters" "true" = .ok parensOn :=
    eq_ok_of_toOption (by decide +kernel)
  have succeeds : ((configured none).run
      ["config", "set", "conversion.plain_parens_as_delimiters", "true"]).1.exitCode = 0 := by
    decide +kernel
  refine ⟨fun file user changed bytes holds done => ?_, exists_eq_ok (by decide +kernel), ?_⟩
  · obtain rfl : none = file := Except.ok.inj bytes
    obtain rfl : .null = user := Except.ok.inj holds
    obtain rfl := Except.ok.inj (put.symm.trans done)
    exact userValue_parensOn
  · rcases ran : (configured none).run
      ["config", "set", "conversion.plain_parens_as_delimiters", "true"] with ⟨ending, after⟩
    rw [ran] at succeeds
    exact ⟨ending, after, rfl, succeeds⟩

def parensTwiceFile : String :=
  "conversion:\n  plainParensAsDelimiters: true\n  plain_parens_as_delimiters: true\n"

theorem held_parensTwice :
    Settings.held (some (Utf8.encode parensTwiceFile.toList)) = .ok (.mapping parensTwice) := by
  have means : Yaml.Node.toValue (.mapping .mapping [(Yaml.plainNode ⟨"conversion".toList, false⟩,
      .mapping .mapping [(Yaml.plainNode ⟨"plainParensAsDelimiters".toList, false⟩,
        Yaml.plainNode ⟨"true".toList, false⟩), (Yaml.plainNode ⟨"plain_parens_as_delimiters".toList, false⟩,
        Yaml.plainNode ⟨"true".toList, false⟩)])]) = .ok (.mapping parensTwice) :=
    eq_ok_of_toOption (by decide +kernel)
  exact Settings.userValue_of_tokens (by decide +kernel) (Yaml.ofTokens?_members _ _ _ _ _) means

end Session

end DollarMath
