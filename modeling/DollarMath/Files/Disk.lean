import DollarMath.Files.Path
import DollarMath.Text.Quoted
import DollarMath.Text.Utf8

/-!
A tree of folders and files, and reading and writing in it by path.
-/

namespace DollarMath

inductive Node where
  | file (content : Bytes)
  | folder (entries : List (String × Node))
deriving Inhabited

namespace Node

def isFolder : Node → Bool
  | file _ => false
  | folder _ => true

def entries : Node → List (String × Node)
  | file _ => []
  | folder entries => entries

def at? (node : Node) : List String → Option Node
  | [] => some node
  | name :: names => (node.entries.lookup name).bind fun child => child.at? names

def putEntry (name : String) (node : Node) : List (String × Node) → List (String × Node)
  | [] => [(name, node)]
  | entry :: rest =>
    if entry.1 = name then (name, node) :: rest else entry :: putEntry name node rest

def put (new : Node) : List String → Node → Node
  | [], _ => new
  | name :: names, node =>
    let child := (node.entries.lookup name).getD (folder [])
    folder (putEntry name (put new names child) node.entries)

mutual

def files (names : List String) : Node → List (List String × Bytes)
  | file content => [(names, content)]
  | folder entries => entryFiles names entries

def entryFiles (names : List String) : List (String × Node) → List (List String × Bytes)
  | [] => []
  | entry :: rest => pairFiles names entry ++ entryFiles names rest

def pairFiles (names : List String) : String × Node → List (List String × Bytes)
  | (name, node) => files (names ++ [name]) node

end

mutual

def folders : Node → List (List String)
  | file _ => []
  | folder entries => [] :: entryFolders entries

def entryFolders : List (String × Node) → List (List String)
  | [] => []
  | entry :: rest => pairFolders entry ++ entryFolders rest

def pairFolders : String × Node → List (List String)
  | (name, node) => (folders node).map (name :: ·)

end

end Node

/-- Why a file or folder is not reached. A path that holds a null byte is no path of the system at
all, so that nothing is looked up. -/
inductive FileCause where
  | notFound
  | exists
  | notFolder
  | isFolder
  | nameTooLong
  | nullByte
deriving DecidableEq, Repr

structure FileError where
  cause : FileCause
  path : Path
deriving DecidableEq, Repr

def FileCause.systemError? : FileCause → Option (Nat × String)
  | notFound => some (2, "No such file or directory")
  | «exists» => some (17, "File exists")
  | notFolder => some (20, "Not a directory")
  | isFolder => some (21, "Is a directory")
  | nameTooLong => some (36, "File name too long")
  | nullByte => none

def FileError.message (error : FileError) : String :=
  match error.cause.systemError? with
  | some (code, text) => s!"[Errno {code}] {text}: {Text.quoted error.path.toString}"
  | none => "embedded null byte"

def maxNameBytes : Nat := 255

def pathBytesLimit : Nat := 4096

def isNameTooLong (name : String) : Bool :=
  maxNameBytes < name.utf8ByteSize

def Path.fault? (path : Path) : Option FileCause :=
  if path.toString.toList.contains '\x00' then some .nullByte
  else if pathBytesLimit ≤ path.toString.utf8ByteSize then some .nameTooLong
  else none

structure Disk where
  root : Node
  folder : List String

namespace Disk

def walk (root : Node) : (place : List String) → List String → Except FileCause (List String)
  | place, [] => .ok place
  | place, name :: names =>
    match root.at? place with
    | none => .error .notFound
    | some (.file _) => .error .notFolder
    | some (.folder entries) =>
      if name = ".." then walk root place.dropLast names
      else if isNameTooLong name then .error .nameTooLong
      else if (entries.lookup name).isSome then walk root (place ++ [name]) names
      else .error .notFound

def start (disk : Disk) (path : Path) : List String :=
  if path.isAbsolute then [] else disk.folder

def follow (disk : Disk) (path : Path) (names : List String) : Except FileCause (List String) :=
  match path.fault? with
  | some cause => .error cause
  | none => walk disk.root (disk.start path) names

def locate (disk : Disk) (path : Path) : Except FileCause (List String) :=
  disk.follow path path.names

def node? (disk : Disk) (path : Path) : Option Node :=
  match disk.locate path with
  | .ok place => disk.root.at? place
  | .error _ => none

def isFolder (disk : Disk) (path : Path) : Bool :=
  (disk.node? path).any Node.isFolder

def fail {α : Type} (cause : FileCause) (path : Path) : Except FileError α :=
  .error ⟨cause, path⟩

def read (disk : Disk) (path : Path) : Except FileError Bytes :=
  match disk.locate path with
  | .error cause => fail cause path
  | .ok place =>
    match disk.root.at? place with
    | some (.file content) => .ok content
    | some (.folder _) => fail .isFolder path
    | none => fail .notFound path

/-- The folder in which a path's last name is looked up, by the names from the root, with that
name; nothing for a path that is a folder by its form. -/
def target (disk : Disk) (path : Path) : Except FileError (Option (List String × String)) :=
  match disk.follow path path.names.dropLast, path.names.getLast? with
  | .error cause, _ => fail cause path
  | .ok _, none => .ok none
  | .ok place, some name =>
    match disk.root.at? place with
    | some (.folder _) =>
      if name = ".." then .ok none
      else if isNameTooLong name then fail .nameTooLong path
      else .ok (some (place, name))
    | _ => fail .notFolder path

def write (disk : Disk) (path : Path) (content : Bytes) : Except FileError Disk :=
  match disk.target path with
  | .error error => .error error
  | .ok none => fail .isFolder path
  | .ok (some (place, name)) =>
    match disk.root.at? (place ++ [name]) with
    | some (.folder _) => fail .isFolder path
    | _ => .ok { disk with root := Node.put (.file content) (place ++ [name]) disk.root }

def makeFolder (disk : Disk) (path : Path) : Except FileError Disk :=
  match disk.target path with
  | .error error => .error error
  | .ok none => fail .exists path
  | .ok (some (place, name)) =>
    match disk.root.at? (place ++ [name]) with
    | some _ => fail .exists path
    | none => .ok { disk with root := Node.put (.folder []) (place ++ [name]) disk.root }

def ensureFolder (disk : Disk) (path : Path) : Except FileError Disk :=
  match disk.makeFolder path with
  | .ok made => .ok made
  | .error error => if disk.isFolder path then .ok disk else .error error

/-- Make a folder and those it lies in, the last name given first, unless they are there. What has
been made stays when a later one cannot be made. -/
def ensureFoldersFrom (disk : Disk) (start : PathStart) : List String → Disk × Option FileError
  | [] => (disk, none)
  | name :: outer =>
    let path : Path := ⟨start, (name :: outer).reverse⟩
    match disk.makeFolder path with
    | .ok made => (made, none)
    | .error ⟨.notFound, _⟩ =>
      match disk.ensureFoldersFrom start outer with
      | (outside, none) =>
        match outside.ensureFolder path with
        | .ok made => (made, none)
        | .error error => (outside, some error)
      | failed => failed
    | .error error => if disk.isFolder path then (disk, none) else (disk, some error)

def ensureFolders (disk : Disk) (path : Path) : Disk × Option FileError :=
  disk.ensureFoldersFrom path.start path.names.reverse

end Disk

end DollarMath
