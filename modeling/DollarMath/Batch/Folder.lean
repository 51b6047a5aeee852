import DollarMath.Batch.Basic
import DollarMath.Files.Glob
import DollarMath.Text.Lines
import DollarMath.Text.Utf8

/-!
Documents in the files of a folder, named by their paths from there.
-/

namespace DollarMath

structure FolderStore where
  folder : Path
  components : List Glob.Component
  excluded : List String

inductive TextFileError where
  | file (error : FileError)
  | encoding (error : Utf8.DecodeError)

def TextFileError.message : TextFileError → String
  | file error => error.message
  | encoding error => error.message

namespace Disk

/-- The text of a file, every line end as a line feed. -/
def readText (disk : Disk) (path : Path) : Except TextFileError (List Char) :=
  match disk.read path with
  | .error error => .error (.file error)
  | .ok bytes =>
    match Utf8.decode bytes with
    | .error error => .error (.encoding error)
    | .ok text => .ok (Text.unifyReturns text)

def writeText (disk : Disk) (path : Path) (text : List Char) : Except FileError Disk :=
  disk.write path (Utf8.encode text)

end Disk

namespace FolderStore

def path (folder : FolderStore) (name : String) : Path :=
  folder.folder.join (Path.ofString name)

def read (folder : FolderStore) (disk : Disk) (name : String) :
    Except TextFileError (List Char) :=
  disk.readText (folder.path name)

def write (folder : FolderStore) (disk : Disk) (name : String) (text : List Char) :
    Except FileError Disk :=
  disk.writeText (folder.path name) text

def listing (folder : FolderStore) (disk : Disk) : Except FileError (List String) :=
  disk.listing folder.folder folder.components folder.excluded

/-- The documents as a store, which is empty if they cannot be listed. -/
def store (folder : FolderStore) : Store Disk where
  names disk := (folder.listing disk).toOption.getD []
  read disk name := (folder.read disk name).mapError TextFileError.message
  write disk name text := (folder.write disk name text).mapError FileError.message

end FolderStore

end DollarMath
