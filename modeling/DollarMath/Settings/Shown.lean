import DollarMath.Console.Width
import DollarMath.Settings.Check

/-!
Settings and their issues as they are shown to the user.
-/

namespace DollarMath

namespace Value

mutual

def shown : Value → String
  | .scalar value => value.shown
  | .list items => "[" ++ String.intercalate ", " (shownItems items) ++ "]"
  | .set [] => "set()"
  | .set items => "\x7b" ++ String.intercalate ", " (items.map Scalar.shown) ++ "\x7d"
  | .mapping members => "\x7b" ++ String.intercalate ", " (shownMembers members) ++ "\x7d"

def shownItems : List Value → List String
  | [] => []
  | item :: items => shown item :: shownItems items

def shownMembers : Section → List String
  | [] => []
  | member :: members => shownMember member :: shownMembers members

def shownMember : Scalar × Value → String
  | (key, value) => key.shown ++ ": " ++ shown value

end

def indentSize : Nat := 4

def partReserve : Nat := 2

/-- Lines for a value that stands in by some columns, after a lead on its first line and before an
ending on its last one. -/
structure Frame where
  columns : Nat
  indent : Nat := 0
  lead : String := ""
  ending : String := ""
  reserve : Nat := 0

namespace Frame

def line (frame : Frame) (text : String) : String :=
  String.ofList (List.replicate frame.indent ' ') ++ text

def whole (frame : Frame) (text : String) : List String :=
  [frame.line (frame.lead ++ text ++ frame.ending)]

def fits (frame : Frame) (text : String) : Bool :=
  frame.indent + Console.width frame.lead.toList + Console.width text.toList + frame.reserve ≤
    frame.columns

def around (frame : Frame) (opening closing : String) (parts : List String) : List String :=
  frame.line (frame.lead ++ opening) :: parts ++ [frame.line (closing ++ frame.ending)]

def part (frame : Frame) (lead : String) (isLast : Bool) : Frame :=
  { columns := frame.columns
    indent := frame.indent + indentSize
    lead
    ending := if isLast then "" else ","
    reserve := partReserve }

end Frame

mutual

def spread (frame : Frame) : Value → List String
  | .list (item :: items) =>
    let text := shown (.list (item :: items))
    if frame.fits text then frame.whole text
    else frame.around "[" "]" (spreadItems frame (item :: items))
  | .mapping (member :: members) =>
    let text := shown (.mapping (member :: members))
    if frame.fits text then frame.whole text
    else frame.around "\x7b" "\x7d" (spreadMembers frame (member :: members))
  | value => frame.whole (shown value)

def spreadItems (frame : Frame) : List Value → List String
  | [] => []
  | item :: items => spread (frame.part "" items.isEmpty) item ++ spreadItems frame items

def spreadMembers (frame : Frame) : Section → List String
  | [] => []
  | member :: members => spreadMember frame members.isEmpty member ++ spreadMembers frame members

def spreadMember (frame : Frame) (isLast : Bool) : Scalar × Value → List String
  | (key, value) => spread (frame.part (key.shown ++ ": ") isLast) value

end

end Value

def Settings.shown (settings : Settings) (columns : Nat) : String :=
  String.intercalate "\n" (Value.spread ⟨columns, 0, "", "", 0⟩ (.mapping settings.toSection))

def IssueKind.message : IssueKind → String
  | notSection => "not a section"
  | notBool => "neither true nor false"
  | unreadableBool => "cannot be read as true or false"
  | notText => "not a text"
  | notList => "not a list"
  | unknownKey => "unknown key"
  | notKey => "not a text, which a key must be"
  | malformedText => "a malformed text"

def Issue.message (issue : Issue) : String :=
  String.intercalate "." issue.path ++ ": " ++ issue.kind.message

def issuesMessage (issues : List Issue) : String :=
  String.intercalate "\n" (issues.map Issue.message)

end DollarMath
