/-!
Documents kept under names, what becomes of each in a batch, and the result that a batch keeps count
of. The log of a batch is the whole of what became of its documents; the result is kept beside it.
-/

namespace DollarMath

/-- A way to list, read and write documents by name. A failure gives its reason and leaves all
documents as they are. -/
structure Store (σ : Type) where
  names : σ → List String
  read : σ → String → Except String (List Char)
  write : σ → String → List Char → Except String σ

inductive FileResult where
  | done (changed : Bool) (inputLength outputLength : Int)
  | failed (reason : String)
deriving DecidableEq, Repr

namespace FileResult

def isChanged : FileResult → Bool
  | done changed _ _ => changed
  | failed _ => false

def isFailed : FileResult → Bool
  | done _ _ _ => false
  | failed _ => true

end FileResult

structure LogEntry where
  name : String
  result : FileResult
deriving DecidableEq, Repr

structure BatchResult where
  total : Nat := 0
  changed : List String := []
  failed : List String := []
deriving DecidableEq, Repr

namespace BatchResult

def add (result : BatchResult) (entry : LogEntry) : BatchResult :=
  match entry.result with
  | .done true _ _ =>
    { result with total := result.total + 1, changed := result.changed ++ [entry.name] }
  | .done false _ _ => { result with total := result.total + 1 }
  | .failed _ =>
    { result with total := result.total + 1, failed := result.failed ++ [entry.name] }

def unchangedCount (result : BatchResult) : Nat :=
  result.total - result.changed.length - result.failed.length

def summary (result : BatchResult) (dryRun : Bool) : String :=
  let verb := if dryRun then "would change" else "converted"
  let counts := s!"{result.changed.length} of {result.total} files {verb}"
  if result.failed.isEmpty then counts else counts ++ s!", {result.failed.length} failed"

end BatchResult

abbrev BatchLog := List LogEntry

namespace BatchLog

def changed (log : BatchLog) : List String :=
  (log.filter (·.result.isChanged)).map LogEntry.name

def failed (log : BatchLog) : List String :=
  (log.filter (·.result.isFailed)).map LogEntry.name

def result (log : BatchLog) : BatchResult :=
  ⟨log.length, log.changed, log.failed⟩

def unchangedCount (log : BatchLog) : Nat :=
  log.result.unchangedCount

def summary (log : BatchLog) (dryRun : Bool) : String :=
  log.result.summary dryRun

end BatchLog

end DollarMath
