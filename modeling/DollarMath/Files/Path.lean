import DollarMath.Text.Lines

/-!
Paths of files: names joined by slashes.
-/

namespace DollarMath

/-- Where a path starts: in the working folder, or at the root. A path may name the root by two
slashes, which are kept; more of them are one. -/
inductive PathStart where
  | here
  | root
  | doubleRoot
deriving DecidableEq, Repr

namespace PathStart

def ofSlashes : Nat → PathStart
  | 0 => here
  | 2 => doubleRoot
  | _ => root

def toString : PathStart → String
  | here => ""
  | root => "/"
  | doubleRoot => "//"

end PathStart

structure Path where
  start : PathStart
  names : List String
deriving DecidableEq, Repr

namespace Path

def isAbsolute (path : Path) : Bool :=
  path.start != .here

def pieces (text : String) : List String :=
  (Text.splitAt '/' text.toList).map String.ofList

def ofString (text : String) : Path :=
  ⟨.ofSlashes (text.toList.takeWhile (· == '/')).length,
    (pieces text).filter fun name => name != "" && name != "."⟩

def toString (path : Path) : String :=
  let joined := String.intercalate "/" path.names
  if path.isAbsolute then path.start.toString ++ joined
  else if path.names.isEmpty then "." else joined

def join (base path : Path) : Path :=
  if path.isAbsolute then path else ⟨base.start, base.names ++ path.names⟩

def parent (path : Path) : Path :=
  ⟨path.start, path.names.dropLast⟩

end Path

end DollarMath
