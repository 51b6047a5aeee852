import DollarMath.Batch.Report
import DollarMath.Conversion.Stage

/-!
The conversion of every document of a store. One that cannot be read or written fails for itself,
and the batch goes on.
-/

namespace DollarMath

namespace Batch

def convertFile {σ : Type} (store : Store σ) (options : Options) (dryRun : Bool) (documents : σ)
    (name : String) : FileResult × σ :=
  match store.read documents name with
  | .error reason => (.failed reason, documents)
  | .ok text =>
    let converted := convert options text
    let changed := converted != text
    let done := FileResult.done changed text.length converted.length
    if changed && !dryRun then
      match store.write documents name converted with
      | .ok written => (done, written)
      | .error reason => (.failed reason, documents)
    else (done, documents)

/-- What a batch has come to: the documents, its result, the record kept of it if one is, and the
names that were told as their documents were done. -/
structure Progress (σ : Type) where
  documents : σ
  result : BatchResult := {}
  recorder? : Option Recorder := none
  told : List String := []

def advance {σ : Type} (store : Store σ) (options : Options) (dryRun : Bool) (progress : Progress σ)
    (name : String) : Progress σ :=
  let (result, documents) := convertFile store options dryRun progress.documents name
  let entry : LogEntry := ⟨name, result⟩
  ⟨documents, progress.result.add entry, progress.recorder?.map (·.add entry),
    progress.told ++ [name]⟩

def run {σ : Type} (store : Store σ) (options : Options) (dryRun : Bool)
    (recorder? : Option Recorder) (documents : σ) : Progress σ × String :=
  let last := (store.names documents).foldl (advance store options dryRun) { documents, recorder? }
  (last, last.result.summary dryRun)

/-! The same with nothing kept but the log. -/

def convertFiles {σ : Type} (store : Store σ) (options : Options) (dryRun : Bool) :
    List String → σ → BatchLog × σ
  | [], documents => ([], documents)
  | name :: names, documents =>
    let (result, next) := convertFile store options dryRun documents name
    let (log, last) := convertFiles store options dryRun names next
    (⟨name, result⟩ :: log, last)

def convertAll {σ : Type} (store : Store σ) (options : Options) (dryRun : Bool) (documents : σ) :
    BatchLog × σ :=
  convertFiles store options dryRun (store.names documents) documents

end Batch

end DollarMath
