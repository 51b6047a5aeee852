import DollarMath.Batch.Folder
import DollarMath.Json

/-!
The report of a batch: what is written of it to a file, and what is shown while it is kept.
-/

namespace DollarMath

structure Timing where
  startedAt : String
  micros : Option Nat
deriving DecidableEq, Repr

structure FileRecord where
  path : String
  isChanged : Bool
  inputLength : Int
  outputLength : Int
deriving DecidableEq, Repr

def FileRecord.toValue (record : FileRecord) : Value :=
  .mapping [("path", .text record.path), ("changed", .bool record.isChanged),
    ("input_length", .int record.inputLength), ("output_length", .int record.outputLength)]

structure FailureRecord where
  path : String
  reason : String
deriving DecidableEq, Repr

def FailureRecord.toValue (record : FailureRecord) : Value :=
  .mapping [("path", .text record.path), ("reason", .text record.reason)]

structure Report where
  root : String
  files : List FileRecord := []
  failures : List FailureRecord := []
deriving DecidableEq, Repr

namespace Report

def version : String := "1.0"

def changedCount (report : Report) : Nat :=
  report.files.countP FileRecord.isChanged

def failureCount (report : Report) : Nat :=
  report.failures.length

def contents (report : Report) : Section :=
  [("root", .text report.root), ("files", .list (report.files.map FileRecord.toValue)),
    ("failures", .list (report.failures.map FailureRecord.toValue))]

def toValue (report : Report) (timing : Timing) : Value :=
  let seconds : Value :=
    match timing.micros with
    | some micros => .real (.ofFraction false micros 1000000)
    | none => .int 0
  let start : Section := [("version", .text version), ("timestamp", .text timing.startedAt)]
  let timed : Section := [("timing", .mapping [("total_seconds", seconds)])]
  .mapping (start ++ report.contents ++ timed)

/-- Write the report to a file, making the folders on the way to it. What comes of it is the disk
afterwards, with the error if the report could not be written. -/
def save (report : Report) (timing : Timing) (path : Path) (disk : Disk) :
    Disk × Option FileError :=
  match disk.ensureFolders path.parent with
  | (made, some error) => (made, some error)
  | (made, none) =>
    match made.writeText path (Json.write (report.toValue timing)).toList with
    | .ok written => (written, none)
    | .error error => (made, some error)

end Report

structure Recorder where
  report : Report
  isVerbose : Bool
  shown : List String := []

namespace Recorder

def start (root : String) (isVerbose : Bool) : Recorder :=
  ⟨{ root }, isVerbose, []⟩

def tell (recorder : Recorder) (markup : String) : Recorder :=
  { recorder with shown := recorder.shown ++ [markup] }

def mention (recorder : Recorder) (markup : String) : Recorder :=
  if recorder.isVerbose then recorder.tell markup else recorder

def addFile (recorder : Recorder) (record : FileRecord) : Recorder :=
  let status := if record.isChanged then "[green]converted[/green]" else "[dim]unchanged[/dim]"
  let report := { recorder.report with files := recorder.report.files ++ [record] }
  { recorder with report }.mention s!"{status} {record.path}"

def addFailure (recorder : Recorder) (record : FailureRecord) : Recorder :=
  let report := { recorder.report with failures := recorder.report.failures ++ [record] }
  { recorder with report }.mention s!"[yellow]Failed {record.path}: {record.reason}[/yellow]"

def add (recorder : Recorder) (entry : LogEntry) : Recorder :=
  match entry.result with
  | .done changed inputLength outputLength =>
    recorder.addFile ⟨entry.name, changed, inputLength, outputLength⟩
  | .failed reason => recorder.addFailure ⟨entry.name, reason⟩

def addAll (recorder : Recorder) (log : BatchLog) : Recorder :=
  log.foldl add recorder

structure Saving where
  recorder : Recorder
  disk : Disk
  error : Option FileError

def save (recorder : Recorder) (timing : Timing) (path : Path) (disk : Disk) : Saving :=
  match recorder.report.save timing path disk with
  | (after, none) =>
    ⟨recorder.mention s!"[green]Report saved to {path.toString}[/green]", after, none⟩
  | (after, some error) =>
    let told :=
      if error.cause = .nullByte then recorder
      else recorder.tell s!"[yellow]Warning: Failed to save report: {error.message}[/yellow]"
    ⟨told, after, some error⟩

end Recorder

end DollarMath
