import DollarMath.Files.Disk
import DollarMath.Files.Wildcard
import DollarMath.Text.CodePoint

/-!
Patterns of paths, followed from every folder of a tree.
-/

namespace DollarMath

namespace Glob

inductive Component where
  | below
  | above
  | named (name : String)
  | fitting (name : List Wildcard.Token)
  | here
deriving DecidableEq, Repr

inductive PatternError where
  | absolute
  | misplacedStars
deriving DecidableEq, Repr

def PatternError.message : PatternError → String
  | absolute => "Non-relative patterns are unsupported"
  | misplacedStars => "Invalid pattern: '**' can only be an entire path component"

def holdsTwoStars (text : List Char) : Bool :=
  match text with
  | '*' :: '*' :: _ => true
  | _ :: rest => holdsTwoStars rest
  | [] => false

def holdsWildcard (text : List Char) : Bool :=
  text.any fun char => char == '*' || char == '?' || char == '['

def component (text : String) : Except PatternError Component :=
  if text = "**" then .ok .below
  else if text = ".." then .ok .above
  else if holdsTwoStars text.toList then .error .misplacedStars
  else if holdsWildcard text.toList then .ok (.fitting (Wildcard.tokens text.toList))
  else .ok (.named text)

/-- The components of a pattern, which is followed from the folder and from all folders below it. A
slash at the end leads to folders only. -/
def components (pattern : String) : Except PatternError (List Component) :=
  let path := Path.ofString pattern
  if path.isAbsolute then .error .absolute
  else
    let ending := if pattern.toList.getLast? = some '/' then [Component.here] else []
    (path.names.mapM component).map fun parts => .below :: parts ++ ending

structure Match where
  names : List String
  place : List String
deriving DecidableEq, Repr

def Match.into (start : Match) (names : List String) : Match :=
  ⟨start.names ++ names, start.place ++ names⟩

def nodeAt (root : Node) (place : List String) : Node :=
  (root.at? place).getD (.folder [])

def Match.entries (root : Node) (start : Match) (isLast : Bool) (test : String → Bool) :
    List Match :=
  let found := (nodeAt root start.place).entries.filter fun entry =>
    test entry.1 && (isLast || entry.2.isFolder)
  found.map fun entry => start.into [entry.1]

def follow (root : Node) : List Component → Match → Except (List String) (List Match)
  | [], start => .ok [start]
  | component :: rest, start =>
    let next : Except (List String) (List Match) :=
      match component with
      | .below => .ok ((nodeAt root start.place).folders.map start.into)
      | .above => .ok [⟨start.names ++ [".."], start.place.dropLast⟩]
      | .named name =>
        if isNameTooLong name && !name.toList.contains '\x00' then .error (start.names ++ [name])
        else .ok (start.entries root rest.isEmpty (· == name))
      | .fitting name =>
        .ok (start.entries root rest.isEmpty fun found => Wildcard.fits name found.toList)
      | .here => .ok (if (nodeAt root start.place).isFolder then [start] else [])
    next.bind fun found => (found.mapM (follow root rest)).map List.flatten

end Glob

/-- The files that a pattern leads to from a folder, each once and in order, those on the way to
which an excluded folder lies left out. -/
def Disk.listing (disk : Disk) (folder : Path) (components : List Glob.Component)
    (excluded : List String) : Except FileError (List String) :=
  match disk.locate folder with
  | .error _ => .ok []
  | .ok place =>
    match Glob.follow disk.root components ⟨[], place⟩ with
    | .error names => Disk.fail .nameTooLong (folder.join ⟨.here, names⟩)
    | .ok reached =>
      let found := reached.filter fun found =>
        !(Glob.nodeAt disk.root found.place).isFolder &&
          !found.names.dropLast.any excluded.contains
      .ok (Text.sortStrings
        ((found.map fun found => String.intercalate "/" found.names).eraseDups))

end DollarMath
