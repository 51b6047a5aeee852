import DollarMath.Batch.Folder
import DollarMath.Batch.Run
import DollarMath.Proofs.Conversion.LineEnds
import DollarMath.Proofs.Files.Disk
import DollarMath.Proofs.Text.Utf8
import Mathlib

/-!
What the conversion of a folder leaves in every file of the tree that the folder lies in.
-/

namespace DollarMath

theorem Text.unifyReturns_of_free {text : List Char} (free : '\r' ∉ text) :
    unifyReturns text = text := by
  induction text with
  | nil => rfl
  | cons char text ih =>
      have other : char ≠ '\r' := by
        rintro rfl
        exact free (by simp)
      rw [unifyReturns]
      · rw [if_neg other, ih fun member => free (by simp [member])]
      · intro rest same
        exact absurd same other

namespace Disk

theorem readText_eq_ok {disk : Disk} {path : Path} {text : List Char}
    (read : disk.readText path = .ok text) :
    ∃ place bytes decoded, disk.locate path = .ok place ∧ disk.content? place = some bytes ∧
      Utf8.decode bytes = .ok decoded ∧ text = Text.unifyReturns decoded := by
  unfold readText at read
  split at read
  next => simp at read
  next bytes found =>
    split at read
    next => simp at read
    next decoded decodes =>
      obtain rfl := Except.ok.inj read
      unfold Disk.read fail at found
      split at found
      next => simp at found
      next place located =>
        split at found
        next content reached =>
          obtain rfl := Except.ok.inj found
          exact ⟨place, content, decoded, located, by simp [content?, reached, Node.content?],
            decodes, rfl⟩
        next => simp at found
        next => simp at found

theorem readText_of_content {disk : Disk} {path : Path} {place : List String} {bytes : Bytes}
    {text : List Char} (located : disk.locate path = .ok place)
    (found : disk.content? place = some bytes) (decoded : Utf8.decode bytes = .ok text) :
    disk.readText path = .ok (Text.unifyReturns text) := by
  have read : disk.read path = .ok bytes := by
    rw [Disk.read, located]
    dsimp only
    rw [content?_eq_some found]
  rw [readText, read]
  dsimp only
  rw [decoded]

end Disk

namespace FolderStore

variable (folder : FolderStore) (disk : Disk) (name : String)

theorem store_read : folder.store.read disk name =
    (disk.readText (folder.path name)).mapError TextFileError.message := by
  unfold store FolderStore.read
  dsimp only

theorem store_write (text : List Char) : folder.store.write disk name text =
    (disk.write (folder.path name) (Utf8.encode text)).mapError FileError.message := by
  unfold store FolderStore.write Disk.writeText
  dsimp only

end FolderStore

namespace Batch

def rewritten (options : Options) (bytes : Bytes) : Bytes :=
  match Utf8.decode bytes with
  | .error _ => bytes
  | .ok text =>
    let read := Text.unifyReturns text
    let converted := convert options read
    if converted = read then bytes else Utf8.encode converted

theorem rewritten_of_free (options : Options) {text : List Char} (free : '\r' ∉ text) :
    rewritten options (Utf8.encode text) = Utf8.encode (convert options text) := by
  rw [rewritten, Utf8.decode_encode]
  dsimp only
  rw [Text.unifyReturns_of_free free]
  split
  next same => rw [same]
  next => rfl

theorem iterate_rewritten (options : Options) {text : List Char} (free : '\r' ∉ text)
    (times : Nat) :
    (rewritten options)^[times] (Utf8.encode text) =
      Utf8.encode ((convert options)^[times] text) := by
  induction times generalizing text with
  | zero => rfl
  | succ times ih =>
      have later := (lined_convert (.inl rfl) options (.of_free free) (.inl rfl)).free
      rw [Function.iterate_succ_apply, Function.iterate_succ_apply, rewritten_of_free options free,
        ih later]

def places (folder : FolderStore) (disk : Disk) (names : List String) : List (List String) :=
  names.filterMap fun name => (disk.locate (folder.path name)).toOption

section Step

variable {σ : Type} {store : Store σ} {documents : σ} {name : String} (options : Options)

theorem convertFile_of_error {reason : String} (failed : store.read documents name = .error reason)
    (dryRun : Bool) :
    convertFile store options dryRun documents name = (.failed reason, documents) := by
  rw [convertFile, failed]

theorem convertFile_of_same {text : List Char} (read : store.read documents name = .ok text)
    (same : convert options text = text) (dryRun : Bool) :
    (convertFile store options dryRun documents name).2 = documents := by
  rw [convertFile, read]
  simp [same]

theorem convertFile_of_written {text : List Char} {next : σ}
    (read : store.read documents name = .ok text) (altered : convert options text ≠ text)
    (written : store.write documents name (convert options text) = .ok next) :
    (convertFile store options false documents name).2 = next := by
  rw [convertFile, read]
  simp [altered, written]

theorem convertFiles_cons (names : List String) (dryRun : Bool) :
    (convertFiles store options dryRun (name :: names) documents).2 =
      (convertFiles store options dryRun names
        (convertFile store options dryRun documents name).2).2 :=
  rfl

end Step

section Folder

variable (folder : FolderStore) (options : Options)

/-- What the conversion of one file does to the disk: nothing, which is right for the file, or the
file is put anew in its place. -/
theorem convertFile_folder {disk : Disk} (isFolder : disk.isFolder folder.folder = true)
    (name : String) {next : Disk}
    (nextEq : (convertFile folder.store options false disk name).2 = next) :
    (next = disk ∧ ∀ place bytes, disk.locate (folder.path name) = .ok place →
        disk.content? place = some bytes → rewritten options bytes = bytes) ∨
      ∃ place bytes, disk.locate (folder.path name) = .ok place ∧
        disk.content? place = some bytes ∧ next =
          { disk with root := Node.put (.file (rewritten options bytes)) place disk.root } := by
  have storeRead := folder.store_read disk name
  subst nextEq
  cases read : disk.readText (folder.path name) with
  | error fault =>
      left
      rw [read] at storeRead
      refine ⟨by rw [convertFile_of_error options storeRead false], ?_⟩
      intro place bytes located found
      unfold rewritten
      split
      next => rfl
      next text decoded =>
        rw [Disk.readText_of_content located found decoded] at read
        cases read
  | ok text =>
      rw [read] at storeRead
      obtain ⟨place, bytes, decoded, located, found, decodes, textEq⟩ := Disk.readText_eq_ok read
      have rewrite : rewritten options bytes =
          if convert options text = text then bytes else Utf8.encode (convert options text) := by
        rw [rewritten, decodes, textEq]
      by_cases same : convert options text = text
      · left
        refine ⟨convertFile_of_same options storeRead same false, ?_⟩
        intro place' bytes' located' found'
        obtain rfl := Except.ok.inj (located.symm.trans located')
        obtain rfl := Option.some.inj (found.symm.trans found')
        rw [rewrite, if_pos same]
      · right
        have written := Disk.write_of_content located found
          (Disk.names_ne_nil isFolder located found) (Utf8.encode (convert options text))
        have storeWritten := folder.store_write disk name (convert options text)
        rw [written] at storeWritten
        refine ⟨place, bytes, located, found, ?_⟩
        rw [rewrite, if_neg same]
        exact convertFile_of_written options storeRead same storeWritten

theorem sameTree_convertFile {disk : Disk} (isFolder : disk.isFolder folder.folder = true)
    (name : String) :
    Disk.SameTree disk (convertFile folder.store options false disk name).2 := by
  rcases convertFile_folder folder options isFolder name rfl with
    ⟨same, _⟩ | ⟨place, bytes, _, found, same⟩
  · rw [same]
    exact .refl disk
  · rw [same]
    exact ⟨(Node.outline_put (Disk.content?_eq_some found) _).symm, rfl⟩

theorem content?_convertFile {disk : Disk} (isFolder : disk.isFolder folder.folder = true)
    (name : String) (place : List String) :
    (convertFile folder.store options false disk name).2.content? place =
      (disk.content? place).map (rewritten options)^[(places folder disk [name]).count place] := by
  cases located : disk.locate (folder.path name) with
  | error cause =>
      have listed : places folder disk [name] = [] := by simp [places, located, Except.toOption]
      rcases convertFile_folder folder options isFolder name rfl with
        ⟨same, _⟩ | ⟨other, bytes, reached, _, _⟩
      · rw [same, listed, List.count_nil, Function.iterate_zero, Option.map_id]
        rfl
      · simp [located] at reached
  | ok own =>
      have listed : places folder disk [name] = [own] := by simp [places, located, Except.toOption]
      rw [listed, List.count_singleton]
      rcases convertFile_folder folder options isFolder name rfl with
        ⟨same, kept⟩ | ⟨other, bytes, reached, found, same⟩
      · rw [same]
        by_cases here : own = place
        · subst here
          cases found : disk.content? own with
          | none => rfl
          | some bytes => simp [kept own bytes located found]
        · simp [here]
      · obtain rfl := Except.ok.inj (located.symm.trans reached)
        rw [same, Disk.content?, Node.content?_put (Disk.content?_eq_some found), ← Disk.content?]
        by_cases here : own = place
        · subst here
          simp [found]
        · simp [here, Ne.symm here]

theorem content?_convertFiles {disk : Disk} (isFolder : disk.isFolder folder.folder = true)
    (names : List String) (place : List String) :
    (convertFiles folder.store options false names disk).2.content? place =
      (disk.content? place).map (rewritten options)^[(places folder disk names).count place] := by
  induction names generalizing disk with
  | nil =>
      have unlisted : (places folder disk []).count place = 0 := rfl
      rw [unlisted, Function.iterate_zero, Option.map_id]
      rfl
  | cons name names ih =>
      have sameTree := sameTree_convertFile folder options isFolder name
      have own := content?_convertFile folder options isFolder name place
      have later := ih (sameTree.isFolder folder.folder ▸ isFolder)
      have listed : places folder (convertFile folder.store options false disk name).2 names =
          places folder disk names := by
        simp only [places, ← sameTree.locate]
      have split : places folder disk (name :: names) =
          places folder disk [name] ++ places folder disk names := by
        rw [places, places, places, ← List.filterMap_append]
        rfl
      rw [own, listed, Option.map_map, ← Function.iterate_add] at later
      rw [convertFiles_cons, split, List.count_append, Nat.add_comm, later]

end Folder

/-- How often the file in a place is listed; a pattern may lead to it in several ways. -/
def timesListed (folder : FolderStore) (disk : Disk) (place : List String) : Nat :=
  (places folder disk (folder.store.names disk)).count place

/-- Every file of a tree after the conversion of a folder of it: it has been rewritten once for each
time it is listed. A text without carriage returns has been converted as often. -/
theorem content?_convertAll (folder : FolderStore) (options : Options) (disk : Disk)
    (isFolder : disk.isFolder folder.folder = true) (place : List String) :
    (convertAll folder.store options false disk).2.content? place =
        (disk.content? place).map (rewritten options)^[timesListed folder disk place] ∧
      ∀ bytes text, disk.content? place = some bytes → Utf8.decode bytes = .ok text →
        '\r' ∉ text → (convertAll folder.store options false disk).2.content? place =
          some (Utf8.encode ((convert options)^[timesListed folder disk place] text)) := by
  have general := content?_convertFiles folder options isFolder (folder.store.names disk) place
  refine ⟨general, ?_⟩
  intro bytes text found decoded free
  rw [convertAll, general, found, Option.map_some, ← Utf8.encode_of_decode decoded,
    iterate_rewritten options free]
  rfl

def note (text : List Char) : Disk :=
  ⟨.folder [("a.md", .file (Utf8.encode text))], []⟩

def notes : FolderStore :=
  ⟨⟨.here, []⟩, [.below, .fitting (Wildcard.tokens "*.md".toList)], []⟩

theorem content?_convertAll_note :
    (note "\\(x\\)\nb\n".toList).isFolder notes.folder = true ∧
      timesListed notes (note "\\(x\\)\nb\n".toList) ["a.md"] = 1 ∧
      (convertAll notes.store {} false (note "\\(x\\)\nb\n".toList)).2.content? ["a.md"] =
        some (Utf8.encode (convert {} "\\(x\\)\nb\n".toList)) := by
  have isFolder : (note "\\(x\\)\nb\n".toList).isFolder notes.folder = true := by decide +kernel
  have listed : timesListed notes (note "\\(x\\)\nb\n".toList) ["a.md"] = 1 := by cbv
  have holds := (content?_convertAll notes {} _ isFolder ["a.md"]).2 _ _ rfl
    (Utf8.decode_encode "\\(x\\)\nb\n".toList) (by decide)
  rw [listed] at holds
  exact ⟨isFolder, listed, holds⟩

/-- A text with carriage returns loses them when it is converted. -/
theorem content?_convertAll_ne :
    (note "\\(x\\)\r\nb\r\n".toList).isFolder notes.folder = true ∧
      timesListed notes (note "\\(x\\)\r\nb\r\n".toList) ["a.md"] = 1 ∧
      (note "\\(x\\)\r\nb\r\n".toList).content? ["a.md"] =
        some (Utf8.encode "\\(x\\)\r\nb\r\n".toList) ∧
      (convertAll notes.store {} false (note "\\(x\\)\r\nb\r\n".toList)).2.content? ["a.md"] ≠
        some (Utf8.encode (convert {} "\\(x\\)\r\nb\r\n".toList)) := by
  have converted : convert {} "\\(x\\)\r\nb\r\n".toList = "$x$\r\nb\r\n".toList := by
    decide +kernel
  have after : (convertAll notes.store {} false
      (note "\\(x\\)\r\nb\r\n".toList)).2.content? ["a.md"] =
        some (Utf8.encode "$x$\nb\n".toList) := by
    cbv
  refine ⟨by decide +kernel, by cbv, rfl, ?_⟩
  rw [after, converted]
  decide +kernel

end Batch

end DollarMath
