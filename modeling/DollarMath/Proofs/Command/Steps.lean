import DollarMath.Command.Run
import DollarMath.Proofs.Results

/-!
What the steps of a command do to its session one after another, and which settings are in force for
it.
-/

namespace DollarMath

namespace Step

variable {α β : Type}

theorem run_bind (step : Step α) (next : α → Step β) (session : Session) :
    (step >>= next).run.run session =
      match step.run.run session with
      | (.ok value, after) => (next value).run.run after
      | (.error stop, after) => (.error stop, after) := by
  change StateT.run (ExceptT.run step >>= ExceptT.bindCont next) session = _
  rw [StateT.run_bind]
  rcases step.run.run session with ⟨_ | value, after⟩ <;> rfl

theorem run_get (session : Session) : (get : Step Session).run.run session = (.ok session, session) :=
  rfl

theorem run_setDisk (disk : Disk) (session : Session) :
    (setDisk disk).run.run session = (.ok (), { session with disk }) := rfl

theorem run_say_of_line {markup line : String} (shown : Console.line markup = .ok line)
    (session : Session) :
    (say markup).run.run session =
      (.ok (), { session with output := session.output ++ line.toList }) := by
  rw [say, shown]
  rfl

theorem disk_refuse (markup : String) (session : Session) :
    ∃ stop output, (refuse markup : Step α).run.run session =
      (.error stop, { session with output }) := by
  rw [refuse, run_bind, say]
  cases Console.line ("[bold red]Error:[/bold red] " ++ markup) with
  | ok line => exact ⟨_, _, rfl⟩
  | error error => exact ⟨_, session.output, rfl⟩

end Step

namespace Session

def settingsBytes (session : Session) : Except FileError (Option Bytes) :=
  match session.disk.node? session.settingsPath with
  | none => .ok none
  | some _ => (session.disk.read session.settingsPath).map some

def HasSettings (session : Session) (settings : Settings) : Prop :=
  (Command.settings.run).run session = (.ok settings, session)

end Session

namespace Command

open Step

variable {session : Session}

theorem run_settingsFile (session : Session) :
    settingsFile.run.run session =
      (session.settingsBytes.mapError fun error => .broken (.file error), session) := by
  rw [settingsFile, run_bind, run_get, Session.settingsBytes]
  dsimp only
  cases session.disk.node? session.settingsPath with
  | none => rfl
  | some node => cases session.disk.read session.settingsPath <;> rfl

theorem refuseSettings_fails (details : String) (session : Session) :
    ∃ stop after, (refuseSettings details : Step Settings).run.run session = (.error stop, after) := by
  rw [refuseSettings, run_bind]
  obtain ⟨stop, output, refused⟩ := @disk_refuse Settings
    s!"invalid configuration in {session.settingsPath.toString}\n{escaped details}" session
  exact ⟨stop, _, refused⟩

theorem run_settings (session : Session) :
    Command.settings.run.run session =
      match session.settingsBytes with
      | .error error => (.error (.broken (.file error)), session)
      | .ok file =>
        (match Settings.load file with
          | .ok settings => pure settings
          | .error (.unusable (.invalid issues)) => refuseSettings (issuesMessage issues)
          | .error (.unreadable (.valueless fault)) =>
            breakDown (.settings (.unreadable (.valueless fault)))
          | .error (.unreadable error) => refuseSettings error.message
          | .error error => breakDown (.settings error) : Step Settings).run.run session := by
  rw [Command.settings, run_bind, run_settingsFile]
  cases session.settingsBytes <;> rfl

theorem settings_fails {file : Option Bytes} {error : LoadError}
    (bytes : session.settingsBytes = .ok file) (fails : Settings.load file = .error error) :
    ∃ stop after, Command.settings.run.run session = (.error stop, after) := by
  rw [run_settings, bytes]
  dsimp only
  rw [fails]
  -- Some errors are shown before the command stops, and others stop it at once.
  cases error with
  | unusable error =>
      cases error with
      | invalid issues => exact refuseSettings_fails _ session
      | badKey fault => exact ⟨_, session, rfl⟩
  | unreadable error =>
      cases error with
      | valueless fault => exact ⟨_, session, rfl⟩
      | _ => exact refuseSettings_fails _ session
  | _ => exact ⟨_, session, rfl⟩

theorem hasSettings_iff {settings : Settings} : session.HasSettings settings ↔
    ∃ file, session.settingsBytes = .ok file ∧ Settings.load file = .ok settings := by
  constructor
  · intro has
    cases bytes : session.settingsBytes with
    | error error =>
        rw [Session.HasSettings, run_settings, bytes] at has
        cases has
    | ok file =>
        cases loads : Settings.load file with
        | error error =>
            obtain ⟨stop, after, fails⟩ := settings_fails bytes loads
            rw [Session.HasSettings, fails] at has
            cases has
        | ok found =>
            rw [Session.HasSettings, run_settings, bytes] at has
            dsimp only at has
            rw [loads] at has
            cases has
            exact ⟨file, rfl, loads⟩
  · rintro ⟨file, bytes, loads⟩
    rw [Session.HasSettings, run_settings, bytes]
    dsimp only
    rw [loads]
    rfl

end Command

end DollarMath
