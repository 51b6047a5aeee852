import DollarMath.Command.Run
import Std.Time.Format
import Std.Time.Zoned

/-!
The program: what a command needs is read from the files of the system, the command is carried out
on that, and what it changed is written back.
-/

namespace DollarMath.Program

partial def readNode (path : String) (whole : Bool) : IO (Option Node) := do
  let place := (← IO.currentDir) / path
  if ← place.isDir then
    if !whole then return some (.folder [])
    let entries ← place.readDir
    let nodes ← entries.toList.mapM fun entry => do
      return (entry.fileName, ← readNode (path ++ "/" ++ entry.fileName) true)
    return some (.folder (nodes.filterMap fun (name, node) => node.map (name, ·)))
  else if ← place.pathExists then
    return some (.file (← IO.FS.readBinFile place).toList)
  else return none

def placeOf (folder : List String) (path : Path) : List String :=
  path.names.foldl (fun place name => if name == ".." then place.dropLast else place ++ [name])
    (if path.isAbsolute then [] else folder)

def placeText (place : List String) : String :=
  "/" ++ String.intercalate "/" place

def addPlace (disk : Disk) (whole : Bool) : List String → IO Disk
  | place => do
    let mut found := disk
    for size in List.range (place.length + 1) do
      let part := place.take size
      if (found.root.at? part).isNone || (whole && size == place.length) then
        match ← readNode (placeText part) (whole && size == place.length) with
        | some node => found := { found with root := Node.put node part found.root }
        | none => return found
    return found

def wholeFolder? (disk : Disk) (settingsPath : Path) : Command → Option (Path × Path)
  | .convertAll folder _ _ _ =>
    let report := match Settings.load (disk.read settingsPath).toOption with
      | .ok settings => settings.report.path
      | .error _ => {: ReportSettings }.path
    some (folder, folder.join (Path.ofString report))
  | _ => none

def readDisk (settingsPath : Path) (arguments : List String) : IO Disk := do
  let folder := (Path.ofString (← IO.currentDir).toString).names
  let start ← addPlace ⟨.folder [], folder⟩ false folder
  let withSettings ← addPlace start false (placeOf folder settingsPath)
  match Command.ofArguments arguments with
  | .error _ => return withSettings
  | .ok request =>
    let named ← request.paths.foldlM
      (fun disk argument => addPlace disk false (placeOf folder argument.path)) withSettings
    match request.command.toOption.bind (wholeFolder? named settingsPath) with
    | none => return named
    | some (path, report) =>
      let whole ← addPlace named true (placeOf folder path)
      addPlace whole false (placeOf folder report)

def writeChanges (before after : Disk) : IO Unit := do
  for (place, content) in after.root.files [] do
    match before.root.at? place with
    | some (.file old) => if old == content then continue
    | _ => pure ()
    IO.FS.createDirAll (placeText place.dropLast)
    IO.FS.writeBinFile (placeText place) ⟨content.toArray⟩

def readsInput : Command → Bool
  | .convert none _ _ _ _ => true
  | .paste _ => true
  | _ => false

def readInput (arguments : List String) : IO (List Char) := do
  match Command.ofArguments arguments with
  | .ok request =>
    if request.command.toOption.any readsInput then
      return Utf8.decodeLossy (← (← IO.getStdin).readBinToEnd).toList
    return []
  | .error _ => return []

def complaint? : Ending → Option String
  | .misuse error => some error.message
  | .breakdown (.settings (.undecodable error)) => some error.message
  | .breakdown (.settings (.unreadable error)) => some error.message
  | .breakdown (.settings (.unusable (.badKey fault))) => some fault.message
  | .breakdown (.settings _) => some "the settings are not a mapping"
  | .breakdown (.change (.badNumber fault)) => some fault.message
  | .breakdown (.change (.unusable (.badKey fault))) => some fault.message
  | .breakdown (.change _) => some "the settings are not a mapping"
  | .breakdown (.pattern error) => some error.message
  | .breakdown (.markup error) => some error.message
  | .breakdown (.file error) => some error.message
  | _ => none

end DollarMath.Program

open DollarMath Program in
def main (arguments : List String) : IO UInt32 := do
  let home := (← IO.getEnv "HOME").getD "/"
  let settingsPath := Path.ofString (home ++ "/.dollarmath/config.yaml")
  let now ← Std.Time.PlainDateTime.now
  let disk ← readDisk settingsPath arguments
  let session : Session := {
    disk
    settingsPath
    clipboard := none
    input := ← readInput arguments
    timing := ⟨now.format "uuuu-MM-dd'T'HH:mm:ss.SSSSSS", none⟩ }
  let (ending, after) := session.run arguments
  writeChanges disk after.disk
  IO.print (String.ofList after.output)
  match complaint? ending with
  | some message => IO.eprintln message
  | none => pure ()
  return ending.exitCode.toUInt32
