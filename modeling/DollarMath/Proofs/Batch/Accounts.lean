import DollarMath.Batch.Memory
import DollarMath.Batch.Run
import Mathlib

/-!
What becomes of the documents of a batch: each listed one is converted, stays as it is, or fails,
and the log, the report and the store agree on which.
-/

namespace DollarMath

/-- What can be seen of a store as long as it is sound: the texts under the names, the names written
so far, the last one first, and why some names cannot be read or written. -/
structure Store.View (σ : Type) where
  text : σ → String → List Char
  written : σ → List String
  unreadable : String → Option String
  unwritable : String → Option String
  isSound : σ → Prop

structure Store.Shows {σ : Type} (store : Store σ) (view : View σ) (names : List String) :
    Prop where
  reads : ∀ documents, view.isSound documents → ∀ name ∈ names,
    store.read documents name =
      match view.unreadable name with
      | some reason => .error reason
      | none => .ok (view.text documents name)
  refuses : ∀ documents, view.isSound documents → ∀ name ∈ names, ∀ text reason,
    view.unwritable name = some reason → store.write documents name text = .error reason
  writes : ∀ documents, view.isSound documents → ∀ name ∈ names, ∀ text,
    view.unwritable name = none → ∃ next, store.write documents name text = .ok next ∧
      view.isSound next ∧ view.text next = Function.update (view.text documents) name text ∧
      view.written next = name :: view.written documents

namespace Memory

theorem lookup_replace (name : String) (text : List Char) (documents : List (String × List Char))
    (other : String) : (replace name text documents).lookup other =
      if other = name then (documents.lookup name).map fun _ => text
      else documents.lookup other := by
  induction documents with
  | nil => simp [replace]
  | cons document documents ih =>
      obtain ⟨own, content⟩ := document
      rw [replace, List.lookup_cons, List.lookup_cons, List.lookup_cons, ih]
      by_cases here : own = name
      · subst here
        by_cases same : other = own
        · simp [same]
        · simp [same, beq_eq_false_iff_ne.mpr same]
      · by_cases same : other = name
        · subst same
          simp [here, beq_eq_false_iff_ne.mpr (Ne.symm here)]
        · simp [here, same]

def view (memory : Memory) : Store.View Memory where
  text now name := (now.documents.lookup name).getD []
  written now := now.written
  unreadable name := if memory.unreadable.contains name then some "cannot read" else none
  unwritable name := if memory.unwritable.contains name then some "cannot write" else none
  isSound now := now.unreadable = memory.unreadable ∧ now.unwritable = memory.unwritable ∧
    ∀ name ∈ store.names memory, (now.documents.lookup name).isSome

theorem shows_view (memory : Memory) : store.Shows memory.view (store.names memory) where
  reads := by
    rintro now ⟨unreadable, -, known⟩ name listed
    obtain ⟨text, textEq⟩ := Option.isSome_iff_exists.mp (known name listed)
    by_cases broken : name ∈ memory.unreadable
    · simp [store, read, view, unreadable, broken]
    · simp [store, read, view, unreadable, broken, textEq]
  refuses := by
    rintro now ⟨-, unwritable, -⟩ name - text reason refused
    by_cases broken : name ∈ memory.unwritable
    · simpa [store, write, view, unwritable, broken] using refused
    · simp [view, broken] at refused
  writes := by
    rintro now ⟨unreadable, unwritable, known⟩ name listed text allowed
    have broken : name ∉ memory.unwritable := by
      intro member
      simp [view, member] at allowed
    obtain ⟨old, oldEq⟩ := Option.isSome_iff_exists.mp (known name listed)
    have replaced := lookup_replace name text now.documents
    rw [oldEq] at replaced
    refine ⟨{ now with
      documents := replace name text now.documents
      written := name :: now.written }, ?_, ⟨unreadable, unwritable, ?_⟩, ?_, rfl⟩
    · simp [store, write, unwritable, broken]
    · intro other member
      simp only [replaced]
      split
      · rfl
      · exact known other member
    · funext other
      simp only [view, replaced, Function.update_apply]
      split <;> rfl

theorem isSound_view (memory : Memory) : memory.view.isSound memory := by
  refine ⟨rfl, rfl, fun name listed => ?_⟩
  have member : name ∈ memory.documents.map Prod.fst := List.mem_mergeSort.mp listed
  obtain ⟨document, inside, rfl⟩ := List.mem_map.mp member
  rw [List.lookup_isSome_iff]
  exact ⟨document, inside, beq_self_eq_true _⟩

end Memory

namespace LogEntry

def file? (entry : LogEntry) : Option FileRecord :=
  match entry.result with
  | .done changed inputLength outputLength =>
    some ⟨entry.name, changed, inputLength, outputLength⟩
  | .failed _ => none

def failure? (entry : LogEntry) : Option FailureRecord :=
  match entry.result with
  | .done _ _ _ => none
  | .failed reason => some ⟨entry.name, reason⟩

end LogEntry

namespace BatchLog

def files (log : BatchLog) : List FileRecord :=
  log.filterMap LogEntry.file?

def failures (log : BatchLog) : List FailureRecord :=
  log.filterMap LogEntry.failure?

theorem files_cons (entry : LogEntry) (log : BatchLog) :
    files (entry :: log) = entry.file?.toList ++ files log := by
  cases found : entry.file? <;> simp [files, found]

theorem failures_cons (entry : LogEntry) (log : BatchLog) :
    failures (entry :: log) = entry.failure?.toList ++ failures log := by
  cases found : entry.failure? <;> simp [failures, found]

theorem changed_cons (entry : LogEntry) (log : BatchLog) :
    changed (entry :: log) =
      (if entry.result.isChanged then [entry.name] else []) ++ changed log := by
  cases found : entry.result.isChanged <;> simp [changed, found]

theorem failed_cons (entry : LogEntry) (log : BatchLog) :
    failed (entry :: log) =
      (if entry.result.isFailed then [entry.name] else []) ++ failed log := by
  cases found : entry.result.isFailed <;> simp [failed, found]

theorem foldl_add (log : BatchLog) (result : BatchResult) :
    log.foldl BatchResult.add result =
      ⟨result.total + log.length, result.changed ++ log.changed, result.failed ++ log.failed⟩ := by
  induction log generalizing result with
  | nil => simp [changed, failed]
  | cons entry log ih =>
      rw [List.foldl_cons, ih, changed_cons, failed_cons, List.length_cons]
      obtain ⟨name, outcome⟩ := entry
      cases outcome with
      | done changed inputLength outputLength =>
          cases changed <;>
            simp [BatchResult.add, FileResult.isChanged, FileResult.isFailed, Nat.add_assoc,
              Nat.add_comm 1]
      | failed reason =>
          simp [BatchResult.add, FileResult.isChanged, FileResult.isFailed, Nat.add_assoc,
            Nat.add_comm 1]

theorem countP_files (log : BatchLog) :
    log.files.countP FileRecord.isChanged = log.changed.length := by
  induction log with
  | nil => rfl
  | cons entry log ih =>
      rw [files_cons, changed_cons, List.countP_append, List.length_append, ih]
      obtain ⟨name, outcome⟩ := entry
      cases outcome with
      | done changed inputLength outputLength => cases changed <;> rfl
      | failed reason => rfl

theorem length_failures (log : BatchLog) : log.failures.length = log.failed.length := by
  induction log with
  | nil => rfl
  | cons entry log ih =>
      rw [failures_cons, failed_cons, List.length_append, List.length_append, ih]
      obtain ⟨name, outcome⟩ := entry
      cases outcome <;> rfl

end BatchLog

namespace Recorder

@[simp] theorem report_mention (recorder : Recorder) (markup : String) :
    (recorder.mention markup).report = recorder.report := by
  unfold mention
  split <;> rfl

theorem report_addAll (recorder : Recorder) (log : BatchLog) :
    (recorder.addAll log).report = ⟨recorder.report.root, recorder.report.files ++ log.files,
      recorder.report.failures ++ log.failures⟩ := by
  unfold addAll
  induction log generalizing recorder with
  | nil => simp [BatchLog.files, BatchLog.failures]
  | cons entry log ih =>
      rw [List.foldl_cons, ih, BatchLog.files_cons, BatchLog.failures_cons]
      obtain ⟨name, outcome⟩ := entry
      cases outcome <;> simp [add, addFile, addFailure, LogEntry.file?, LogEntry.failure?]

/-- What is recorded of a batch is its log, the files and the failures each in order. -/
theorem report_start (root : String) (isVerbose : Bool) (log : BatchLog) :
    ((start root isVerbose).addAll log).report = ⟨root, log.files, log.failures⟩ := by
  simp [report_addAll, start]

end Recorder

namespace Batch

section Run

variable {σ : Type} (store : Store σ) (options : Options) (dryRun : Bool)

theorem foldl_advance (names : List String) (progress : Progress σ) :
    names.foldl (advance store options dryRun) progress =
      ⟨(convertFiles store options dryRun names progress.documents).2,
        (convertFiles store options dryRun names progress.documents).1.foldl BatchResult.add
          progress.result,
        progress.recorder?.map
          (·.addAll (convertFiles store options dryRun names progress.documents).1),
        progress.told ++ names⟩ := by
  induction names generalizing progress with
  | nil => simp [convertFiles, Recorder.addAll]
  | cons name names ih =>
      rw [List.foldl_cons, ih]
      simp [advance, convertFiles, Recorder.addAll, Function.comp_def]

/-- What a batch keeps count of as it runs can all be read off its log. -/
theorem run_eq (recorder? : Option Recorder) (documents : σ) :
    run store options dryRun recorder? documents =
      (⟨(convertAll store options dryRun documents).2,
        (convertAll store options dryRun documents).1.result,
        recorder?.map (·.addAll (convertAll store options dryRun documents).1),
        store.names documents⟩,
        (convertAll store options dryRun documents).1.summary dryRun) := by
  rw [run, foldl_advance]
  simp [convertAll, BatchLog.foldl_add, BatchLog.summary, BatchLog.result]

end Run

section Results

variable {σ : Type} (view : Store.View σ) (options : Options) (dryRun : Bool)
  (text : String → List Char)

def alters (name : String) : Bool :=
  convert options (text name) != text name

def fails (name : String) : Bool :=
  (view.unreadable name).isSome ||
    (!dryRun && alters options text name && (view.unwritable name).isSome)

def changes (name : String) : Bool :=
  !fails view options dryRun text name && alters options text name

def writes (name : String) : Bool :=
  !dryRun && changes view options dryRun text name

theorem writes_wet : writes view options false text = changes view options false text := by
  funext name
  simp [writes]

def reasonOf (name : String) : String :=
  ((view.unreadable name).or (view.unwritable name)).getD ""

def resultOf (name : String) : FileResult :=
  if fails view options dryRun text name then .failed (reasonOf view name)
  else .done (alters options text name) (text name).length (convert options (text name)).length

end Results

variable {σ : Type} {store : Store σ} {view : Store.View σ} (options : Options) (dryRun : Bool)
  {documents : σ} {names : List String}

theorem convertFile_account (shows : store.Shows view names) (sound : view.isSound documents)
    {name : String} (listed : name ∈ names) {text : String → List Char}
    (textEq : view.text documents name = text name) :
    ∃ next, convertFile store options dryRun documents name =
        (resultOf view options dryRun text name, next) ∧
      view.isSound next ∧
      view.text next = (if writes view options dryRun text name then
        Function.update (view.text documents) name (convert options (text name))
        else view.text documents) ∧
      view.written next = (if writes view options dryRun text name then [name] else []) ++
        view.written documents := by
  have read := shows.reads documents sound name listed
  rw [textEq] at read
  cases unreadable : view.unreadable name with
  | some reason =>
      refine ⟨documents, ?_, sound, ?_, ?_⟩
      · simp [convertFile, read, resultOf, fails, reasonOf, unreadable]
      · simp [writes, changes, fails, unreadable]
      · simp [writes, changes, fails, unreadable]
  | none =>
      rw [unreadable] at read
      by_cases due : (alters options text name && !dryRun) = true
      · obtain ⟨altered, wet⟩ : alters options text name = true ∧ dryRun = false := by
          simpa using due
        cases unwritable : view.unwritable name with
        | some reason =>
            have refused := shows.refuses documents sound name listed
              (convert options (text name)) reason unwritable
            refine ⟨documents, ?_, sound, ?_, ?_⟩
            · unfold alters at altered
              simp [convertFile, read, refused, resultOf, fails, reasonOf, alters, altered, wet,
                unreadable, unwritable]
            · simp [writes, changes, fails, altered, wet, unwritable]
            · simp [writes, changes, fails, altered, wet, unwritable]
        | none =>
            obtain ⟨next, wrote, sound', textEq', writtenEq⟩ := shows.writes documents sound name
              listed (convert options (text name)) unwritable
            have isWritten : writes view options dryRun text name = true := by
              simp [writes, changes, fails, altered, wet, unreadable, unwritable]
            refine ⟨next, ?_, sound', ?_, ?_⟩
            · unfold alters at altered
              simp [convertFile, read, wrote, resultOf, fails, alters, altered, wet, unreadable,
                unwritable]
            · rw [isWritten, if_pos rfl, textEq']
            · rw [isWritten, if_pos rfl, writtenEq]
              rfl
      · have kept : writes view options dryRun text name = false := by
          cases dryRun <;> simp_all [writes, changes]
        have passed : fails view options dryRun text name = false := by
          cases dryRun <;> simp_all [fails]
        refine ⟨documents, ?_, sound, ?_, ?_⟩
        · unfold alters at due
          simp [convertFile, read, due, resultOf, passed, alters]
        · simp [kept]
        · simp [kept]

/-- Each document is converted as if it were the only one. -/
theorem convertFiles_account {among : List String} (shows : store.Shows view names)
    (sound : view.isSound documents) (listed : among ⊆ names) (distinct : among.Nodup)
    {text : String → List Char} (textEq : ∀ name ∈ among, view.text documents name = text name) :
    ∃ next, convertFiles store options dryRun among documents =
        (among.map fun name => ⟨name, resultOf view options dryRun text name⟩, next) ∧
      view.isSound next ∧
      (∀ name, view.text next name =
        if name ∈ among.filter (writes view options dryRun text) then convert options (text name)
        else view.text documents name) ∧
      view.written next = (among.filter (writes view options dryRun text)).reverse ++
        view.written documents := by
  induction among generalizing documents with
  | nil => exact ⟨documents, rfl, sound, by simp, by simp⟩
  | cons name among ih =>
      obtain ⟨fresh, distinct'⟩ := List.nodup_cons.mp distinct
      obtain ⟨first, firstEq, sound', firstText, firstWritten⟩ :=
        convertFile_account options dryRun shows sound (listed (by simp)) (textEq name (by simp))
      have others : ∀ other, other ≠ name → view.text first other = view.text documents other := by
        intro other differs
        rw [firstText]
        split
        · exact Function.update_of_ne differs _ _
        · rfl
      have later : ∀ other ∈ among, view.text first other = text other := by
        intro other member
        have differs : other ≠ name := by
          rintro rfl
          exact fresh member
        rw [others other differs]
        exact textEq other (by simp [member])
      obtain ⟨next, nextEq, sound'', nextText, nextWritten⟩ :=
        ih sound' (fun other member => listed (by simp [member])) distinct' later
      refine ⟨next, ?_, sound'', ?_, ?_⟩
      · simp [convertFiles, firstEq, nextEq]
      · intro other
        rw [nextText]
        by_cases same : other = name
        · subst same
          have own : other ∉ among.filter (writes view options dryRun text) :=
            fun member => fresh (List.mem_filter.mp member).1
          rw [if_neg own, firstText]
          by_cases isWritten : writes view options dryRun text other = true
          · simp [isWritten]
          · simp [isWritten, own]
        · rw [others other same]
          by_cases isWritten : writes view options dryRun text name = true
          · simp [isWritten, same]
          · simp [isWritten]
      · rw [nextWritten, firstWritten]
        by_cases isWritten : writes view options dryRun text name = true
        · simp [isWritten]
        · simp [isWritten]

def fileRecord (options : Options) (text : String → List Char) (name : String) : Value :=
  .mapping [("path", .text name), ("changed", .bool (alters options text name)),
    ("input_length", .int (text name).length),
    ("output_length", .int (convert options (text name)).length)]

def failureRecord (view : Store.View σ) (name : String) : Value :=
  .mapping [("path", .text name), ("reason", .text (reasonOf view name))]

structure Accounts (view : Store.View σ) (options : Options) (dryRun : Bool) (names : List String)
    (before after : σ) (log : BatchLog) : Prop where
  total : log.map LogEntry.name = names
  failed : log.failed = names.filter (fails view options dryRun (view.text before))
  changed : log.changed = names.filter (changes view options dryRun (view.text before))
  parted : ∃ unchanged, (log.changed ++ log.failed ++ unchanged).Perm names ∧
    log.unchangedCount = unchanged.length ∧
    ∀ name ∈ unchanged, convert options (view.text before name) = view.text before name
  texts : ∀ name, view.text after name =
    if dryRun = false ∧ name ∈ log.changed then convert options (view.text before name)
    else view.text before name
  written : view.written after =
    (if dryRun then [] else log.changed).reverse ++ view.written before
  report : ∀ root isVerbose,
    ((Recorder.start root isVerbose).addAll log).report.contents = ([("root", .text root),
    ("files", .list ((names.filter fun name =>
      !fails view options dryRun (view.text before) name).map
        (fileRecord options (view.text before)))),
    ("failures", .list ((names.filter (fails view options dryRun (view.text before))).map
      (failureRecord view)))] : Section)
  counts : ∀ root isVerbose,
    ((Recorder.start root isVerbose).addAll log).report.changedCount = log.changed.length ∧
      ((Recorder.start root isVerbose).addAll log).report.failureCount = log.failed.length

theorem partition_perm {α : Type} (first second : α → Bool) (items : List α) :
    (items.filter (fun item => !first item && second item) ++ items.filter first ++
      items.filter (fun item => !first item && !second item)).Perm items := by
  have outer := List.filter_append_perm first items
  have inner := List.filter_append_perm second (items.filter fun item => !first item)
  simp only [List.filter_filter] at inner
  simp only [Bool.and_comm (!first _)]
  apply (List.perm_append_comm.append_right _).trans
  rw [List.append_assoc]
  exact (inner.append_left _).trans outer

section Log

variable (view) (text : String → List Char) (names)

def logOf : BatchLog :=
  names.map fun name => ⟨name, resultOf view options dryRun text name⟩

theorem isFailed_resultOf (name : String) :
    (resultOf view options dryRun text name).isFailed = fails view options dryRun text name := by
  unfold resultOf
  split
  next failed => exact failed.symm
  next passed => simpa [FileResult.isFailed] using passed

theorem isChanged_resultOf (name : String) :
    (resultOf view options dryRun text name).isChanged = changes view options dryRun text name := by
  unfold resultOf changes
  split
  next failed => simp [FileResult.isChanged, failed]
  next passed => simp [FileResult.isChanged, passed]

theorem failed_logOf :
    (logOf view options dryRun names text).failed =
      names.filter (fails view options dryRun text) := by
  simp [BatchLog.failed, logOf, List.filter_map, Function.comp_def, isFailed_resultOf]

theorem changed_logOf :
    (logOf view options dryRun names text).changed =
      names.filter (changes view options dryRun text) := by
  simp [BatchLog.changed, logOf, List.filter_map, Function.comp_def, isChanged_resultOf]

theorem files_logOf :
    (logOf view options dryRun names text).files.map FileRecord.toValue =
      (names.filter fun name => !fails view options dryRun text name).map
        (fileRecord options text) := by
  unfold logOf
  induction names with
  | nil => rfl
  | cons name names ih =>
      rw [List.map_cons, BatchLog.files_cons, List.map_append, ih, List.filter_cons]
      cases passed : fails view options dryRun text name <;>
        simp [LogEntry.file?, resultOf, passed, fileRecord, FileRecord.toValue]

theorem failures_logOf :
    (logOf view options dryRun names text).failures.map FailureRecord.toValue =
      (names.filter (fails view options dryRun text)).map (failureRecord view) := by
  unfold logOf
  induction names with
  | nil => rfl
  | cons name names ih =>
      rw [List.map_cons, BatchLog.failures_cons, List.map_append, ih, List.filter_cons]
      cases passed : fails view options dryRun text name <;>
        simp [LogEntry.failure?, resultOf, passed, failureRecord, FailureRecord.toValue]

/-- Each document is changed, has failed, or is as its conversion would make it. -/
theorem parted_logOf :
    ∃ unchanged, ((logOf view options dryRun names text).changed ++
        (logOf view options dryRun names text).failed ++ unchanged).Perm names ∧
      (logOf view options dryRun names text).unchangedCount = unchanged.length ∧
      ∀ name ∈ unchanged, convert options (text name) = text name := by
  have parts := partition_perm (fails view options dryRun text) (alters options text) names
  have changed := changed_logOf view options dryRun names text
  have failed := failed_logOf view options dryRun names text
  refine ⟨_, changed ▸ failed ▸ parts, ?_, ?_⟩
  · have count := parts.length_eq
    rw [List.length_append, List.length_append] at count
    have total : (logOf view options dryRun names text).length = names.length := List.length_map _
    rw [BatchLog.unchangedCount, BatchLog.result, BatchResult.unchangedCount]
    dsimp only
    rw [failed, changed, total]
    unfold changes
    omega
  · intro name member
    have kept := (List.mem_filter.mp member).2
    simp only [Bool.and_eq_true, Bool.not_eq_true'] at kept
    simpa [alters] using kept.2

end Log

/-- The log of a batch accounts for every document, and what the batch itself keeps count of as it
runs, with or without a record, is what its log says. -/
theorem convertAll_accounts (shows : store.Shows view (store.names documents))
    (sound : view.isSound documents) (distinct : (store.names documents).Nodup)
    (options : Options) (dryRun : Bool) :
    Accounts view options dryRun (store.names documents) documents
        (convertAll store options dryRun documents).2
        (convertAll store options dryRun documents).1 ∧
      ∀ recorder?, run store options dryRun recorder? documents =
        (⟨(convertAll store options dryRun documents).2,
          (convertAll store options dryRun documents).1.result,
          recorder?.map (·.addAll (convertAll store options dryRun documents).1),
          store.names documents⟩,
          (convertAll store options dryRun documents).1.summary dryRun) := by
  refine ⟨?_, fun recorder? => run_eq store options dryRun recorder? documents⟩
  obtain ⟨next, ran, -, texts, written⟩ := convertFiles_account options dryRun
    shows sound (List.Subset.refl _) distinct (fun _ _ => rfl)
  rw [convertAll, ran]
  generalize store.names documents = names at *
  change Accounts view options dryRun names documents next
    (logOf view options dryRun names (view.text documents))
  have changed := changed_logOf view options dryRun names (view.text documents)
  refine ⟨by simp [logOf, Function.comp_def], failed_logOf .., changed, parted_logOf .., ?_, ?_,
    fun root isVerbose => ?_, fun root isVerbose => ?_⟩
  · intro name
    rw [texts, changed]
    cases dryRun <;> simp [writes]
  · rw [written, changed]
    cases dryRun
    · rw [writes_wet]
      rfl
    · simp [writes]
  · rw [Report.contents, Recorder.report_start, files_logOf, failures_logOf]
  · rw [Report.changedCount, Report.failureCount, Recorder.report_start]
    exact ⟨BatchLog.countP_files _, BatchLog.length_failures _⟩

/-- A document that cannot be written is left as it was, and the batch goes on after it. -/
theorem convertAll_accounts_memory : ∃ memory : Memory,
    memory.documents = [("a", "\\(x\\)".toList), ("b", "y".toList), ("c", "\\(x\\)".toList),
      ("d", "\\(z\\)".toList), ("e", "y".toList)] ∧
    memory.unreadable = ["b"] ∧ memory.unwritable = ["c"] ∧
    (convertAll Memory.store {} false memory).1.changed = ["a", "d"] ∧
    (convertAll Memory.store {} false memory).1.failed = ["b", "c"] ∧
    Accounts memory.view {} false ["a", "b", "c", "d", "e"] memory
      (convertAll Memory.store {} false memory).2 (convertAll Memory.store {} false memory).1 ∧
    (run Memory.store {} false none memory).1.result = ⟨5, ["a", "d"], ["b", "c"]⟩ := by
  refine ⟨⟨_, ["b"], ["c"], []⟩, rfl, rfl, rfl, by cbv, by cbv, ?_⟩
  have listed : Memory.store.names ⟨[("a", "\\(x\\)".toList), ("b", "y".toList),
      ("c", "\\(x\\)".toList), ("d", "\\(z\\)".toList), ("e", "y".toList)], ["b"], ["c"], []⟩ =
      ["a", "b", "c", "d", "e"] := by cbv
  have distinct : ["a", "b", "c", "d", "e"].Nodup := by decide
  rw [← listed] at distinct ⊢
  obtain ⟨accounts, ran⟩ :=
    convertAll_accounts (Memory.shows_view _) (Memory.isSound_view _) distinct {} false
  refine ⟨accounts, ?_⟩
  rw [ran]
  cbv

end Batch

end DollarMath
