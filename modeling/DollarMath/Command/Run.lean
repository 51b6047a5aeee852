import DollarMath.Batch.Run
import DollarMath.Command.Session
import DollarMath.Review
import DollarMath.Settings.Shown
import DollarMath.Yaml.Writer

/-!
Carrying out the commands of the program.
-/

namespace DollarMath

namespace Command

open Step

def settingsFile : Step (Option Bytes) := do
  let session ← get
  match session.disk.node? session.settingsPath with
  | none => return none
  | some _ =>
    match session.disk.read session.settingsPath with
    | .ok bytes => return some bytes
    | .error error => breakDown (.file error)

def escaped (text : String) : String :=
  String.ofList (Console.escape text.toList)

def refuseSettings {α : Type} (details : String) : Step α := do
  let path := (← get).settingsPath
  refuse s!"invalid configuration in {path.toString}\n{escaped details}"

def settings : Step Settings := do
  match Settings.load (← settingsFile) with
  | .ok settings => return settings
  | .error (.unusable (.invalid issues)) => refuseSettings (issuesMessage issues)
  | .error (.unreadable (.valueless fault)) =>
    breakDown (.settings (.unreadable (.valueless fault)))
  | .error (.unreadable error) => refuseSettings error.message
  | .error error => breakDown (.settings error)

def override (options : Options) (overrides : Overrides) : Options :=
  overrides.foldl (fun options pair => options.set pair.2 pair.1) options

def readText (path : Path) : Step (List Char) := do
  match (← get).disk.readText path with
  | .ok text => return text
  | .error error => refuse s!"cannot read {path.toString}: {escaped error.message}"

def writeText (path : Path) (text : List Char) : Step Unit := do
  match (← get).disk.writeText path text with
  | .ok disk => setDisk disk
  | .error error => refuse s!"cannot write {path.toString}: {escaped error.message}"

def source : Option Path → Step (List Char)
  | some path => readText path
  | none => return Text.unifyReturns (← get).input

def runConvert (file output : Option Path) (inPlace check : Bool) (overrides : Overrides) :
    Step Unit := do
  if inPlace && file.isNone then refuse "--in-place needs a FILE"
  if inPlace && output.isSome then refuse "use either --in-place or --output"
  let options := override (← settings).conversion overrides
  let text ← source file
  let converted := DollarMath.convert options text
  let label := match file with
    | some path => path.toString
    | none => "<stdin>"
  if check then
    if converted != text then
      say s!"[yellow]{label} would change[/yellow]"
      fail
    say s!"[green]{label} is already converted[/green]"
  else
    match (if inPlace then file else none), output with
    | some path, _ =>
      if converted != text then
        writeText path converted
        say s!"[green]Converted {label}[/green]"
      else say s!"[dim]{label} unchanged[/dim]"
    | none, some target =>
      writeText target converted
      say s!"[green]Wrote {target.toString}[/green]"
    | none, none => put (Console.dropSequences converted)

def saveReport (recorder : Recorder) (path : Path) : Step Unit := do
  let session ← get
  let saving := recorder.save session.timing path session.disk
  setDisk saving.disk
  saving.recorder.shown.forM say
  match saving.error with
  | some error => if error.cause = .nullByte then breakDown (.file error)
  | none => pure ()

def runConvertAll (folder : Path) (report : Option Path) (check : Bool) (overrides : Overrides) :
    Step Unit := do
  let settings ← settings
  let options := override settings.conversion overrides
  let reportPath := match report with
    | some path => some path
    | none =>
      if settings.report.isEnabled then some (folder.join (Path.ofString settings.report.path))
      else none
  sayBoxed (s!"[bold]Converting[/bold] {folder.toString}" ++
    if check then " [yellow](check only)[/yellow]" else "")
  match Glob.components settings.files.pattern with
  | .error error => breakDown (.pattern error)
  | .ok components =>
    let documents : FolderStore := ⟨folder, components, settings.files.excludeDirs⟩
    match documents.listing (← get).disk with
    | .error error => breakDown (.file error)
    | .ok _ => pure ()
    let (batch, notice) := Batch.run documents.store options check
      (some (Recorder.start folder.toString false)) (← get).disk
    setDisk batch.documents
    say s!"[bold green]{notice}[/bold green]"
    put ['\n']
    match reportPath, batch.recorder? with
    | some path, some recorder => saveReport recorder path
    | _, _ => pure ()
    let result := batch.result
    if check && !result.changed.isEmpty then
      result.changed.forM fun name => say s!"[yellow]would change:[/yellow] {name}"
      fail
    if !result.failed.isEmpty then
      result.failed.forM fun name => say s!"[bold red]failed:[/bold red] {name}"
      fail

def runPaste (overrides : Overrides) : Step Unit := do
  let options := override (← settings).conversion overrides
  let session ← get
  let text := session.clipboard.getD (Text.unifyReturns session.input)
  if text.isEmpty then say "[yellow]Clipboard is empty[/yellow]"
  else
    let converted := DollarMath.convert options text
    match session.clipboard with
    | none => put converted
    | some _ =>
      set { session with clipboard := some converted }
      say s!"[green]Clipboard converted ({converted.length} chars)[/green]"

def findingMarkup (finding : Finding) : String :=
  let severity := if finding.isWarning then "warning" else "error"
  s!"- {escaped finding.message} ({severity})"

def runValidate (source converted : Path) : Step Unit := do
  let before ← readText source
  let after ← readText converted
  let found := Review.findings before after
  let (warnings, errors) := found.partition Finding.isWarning
  if Review.isValid found then say "[green]File is valid![/green]"
  else say s!"[red]Found {errors.length} errors[/red]"
  found.forM fun finding => say (findingMarkup finding)
  if !warnings.isEmpty then say s!"[yellow]{warnings.length} warnings[/yellow]"
  if !Review.isValid found then fail

def runShowSettings : Step Unit := do
  put (Console.shownLines ((← settings).shown Console.terminalColumns).toList).toList

def userValue : Step Value := do
  match ← settingsFile with
  | none => return .null
  | some bytes =>
    match Settings.userValue bytes with
    | .ok value => return value
    | .error error => breakDown (.settings error)

/-- Write the user's settings file, making the folders on the way to it. Folders that have been made
stay when a later one cannot be made. -/
def saveSettings (members : Section) : Step Unit := do
  let session ← get
  let path := session.settingsPath
  let (made, fault?) := session.disk.ensureFolders path.parent
  setDisk made
  match fault? with
  | some error => breakDown (.file error)
  | none =>
    match made.writeText path (Yaml.write (.mapping members)).toList with
    | .error error => breakDown (.file error)
    | .ok disk => setDisk disk

def runChangeSetting (key value : String) : Step Unit := do
  match Settings.change (← userValue) key value with
  | .ok changed =>
    saveSettings changed
    say s!"[green]Updated {key} = {value}[/green]"
  | .error (.notSection name) => refuse s!"{name} is not a section"
  | .error (.unusable (.invalid issues)) =>
    refuse s!"cannot set {key} = {escaped value}\n{escaped (issuesMessage issues)}"
  | .error error => breakDown (.change error)

def helpLines : List String :=
  ["Usage: [-v] COMMAND",
    "convert [FILE] [-o PATH] [--in-place] [--check] [SWITCHES]",
    "convert-all DIRECTORY [--check] [--report PATH] [SWITCHES]",
    "paste [SWITCHES]",
    "validate ORIGINAL CONVERTED",
    "config show",
    "config set KEY VALUE"]

def run : Command → Step Unit
  | help => put (String.join (helpLines.map (· ++ "\n"))).toList
  | convert file output inPlace check overrides => runConvert file output inPlace check overrides
  | convertAll folder report check overrides => runConvertAll folder report check overrides
  | paste overrides => runPaste overrides
  | validate source converted => runValidate source converted
  | showSettings => runShowSettings
  | changeSetting key value => runChangeSetting key value

end Command

namespace Session

def run (session : Session) (arguments : List String) : Ending × Session :=
  match Command.ofArguments arguments with
  | .error error => (.misuse error, session)
  | .ok request =>
    match request.command? session.disk with
    | .error (.usage error) => (.misuse error, session)
    | .error (.path error) => (.breakdown (.file error), session)
    | .ok command =>
      match (command.run.run).run session with
      | (.ok _, after) => (.success, after)
      | (.error stop, after) => (stop.ending, after)

end Session

end DollarMath
