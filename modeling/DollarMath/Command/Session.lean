import DollarMath.Batch.Report
import DollarMath.Command.Basic
import DollarMath.Console.Line
import DollarMath.Settings.Change

/-!
What a command works on, and how it ends.
-/

namespace DollarMath

/-- What a command sees and changes: the files, the clipboard if there is one, and the text shown.
The time is only written into reports. -/
structure Session where
  disk : Disk
  settingsPath : Path
  clipboard : Option (List Char)
  input : List Char
  timing : Timing
  output : List Char := []

inductive Breakdown where
  | settings (error : LoadError)
  | change (error : ChangeError)
  | pattern (error : Glob.PatternError)
  | markup (error : Console.MarkupError)
  | file (error : FileError)

inductive Ending where
  | success
  | failure
  | misuse (error : Arguments.UsageError)
  | breakdown (cause : Breakdown)

def Ending.exitCode : Ending → Nat
  | success => 0
  | failure => 1
  | misuse _ => 2
  | breakdown _ => 1

inductive Stop where
  | failed
  | broken (cause : Breakdown)

def Stop.ending : Stop → Ending
  | failed => .failure
  | broken cause => .breakdown cause

/-- A step of a command. What it has done stays done when it stops. -/
abbrev Step (α : Type) := ExceptT Stop (StateM Session) α

namespace Step

def breakDown {α : Type} (cause : Breakdown) : Step α :=
  throw (.broken cause)

def fail {α : Type} : Step α :=
  throw .failed

def put (text : List Char) : Step Unit :=
  modify fun session => { session with output := session.output ++ text }

def say (markup : String) : Step Unit :=
  match Console.line markup with
  | .ok line => put line.toList
  | .error error => breakDown (.markup error)

def sayBoxed (markup : String) : Step Unit :=
  match Console.box markup with
  | .ok box => put box.toList
  | .error error => breakDown (.markup error)

def refuse {α : Type} (markup : String) : Step α := do
  say ("[bold red]Error:[/bold red] " ++ markup)
  fail

def setDisk (disk : Disk) : Step Unit :=
  modify fun session => { session with disk }

end Step

end DollarMath
