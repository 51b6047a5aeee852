import DollarMath.Settings.Basic
import DollarMath.Settings.Normal
import DollarMath.Text.Utf8

/-!
Reading settings from values. Everything that is wrong is reported, not only the first issue. The
fields, their names and defaults are the program's own. What passes for a switch, a text or a list,
and the kinds of issues, are documented by the library that the program checks values with.
-/

namespace DollarMath

inductive IssueKind where
  | notSection
  | notBool
  | unreadableBool
  | notText
  | notList
  | unknownKey
  | notKey
  | malformedText
deriving DecidableEq, Repr

structure Issue where
  path : List String
  kind : IssueKind
deriving DecidableEq, Repr

abbrev Checked (α : Type) := Except (List Issue) α

inductive SettingsError where
  | badKey (fault : KeyFault)
  | invalid (issues : List Issue)
deriving DecidableEq, Repr

namespace Checked

def fail {α : Type} (path : List String) (kind : IssueKind) : Checked α :=
  .error [⟨path, kind⟩]

def issues {α : Type} : Checked α → List Issue
  | .ok _ => []
  | .error found => found

def both {α β : Type} (first : Checked α) (second : Checked β) : Checked (α × β) :=
  match first, second with
  | .ok left, .ok right => .ok (left, right)
  | _, _ => .error (first.issues ++ second.issues)

def all {α : Type} : List (Checked α) → Checked (List α)
  | [] => .ok []
  | first :: rest => (both first (all rest)).map fun pair => pair.1 :: pair.2

def withIssues {α : Type} (first : Checked α) (found : List Issue) : Checked α :=
  if first.issues ++ found = [] then first else .error (first.issues ++ found)

end Checked

namespace Settings

def keyIssue? (path : List String) (fields : List String) : Scalar → Option Issue
  | .text key => if fields.contains key then none else some ⟨path ++ [key], .unknownKey⟩
  | .bool key => some ⟨path ++ [if key then "1" else "0"], .notKey⟩
  | key => some ⟨path ++ [key.shown], .notKey⟩

def unknownKeys (path : List String) (fields : List String) (members : Section) : List Issue :=
  members.filterMap fun member => keyIssue? path fields member.1

def isMalformed : Scalar → Bool
  | .malformed _ => true
  | _ => false

/-- What a section of the given fields describes, if its members are what was checked. A malformed
key keeps the section from being looked at. -/
def describe {α : Type} (path : List String) (fields : List String) (members : Section)
    (checked : Checked α) : Checked α :=
  if members.any fun member => isMalformed member.1 then .fail path .malformedText
  else checked.withIssues (unknownKeys path fields members)

def field {α : Type} (path : List String) (members : Section) (key : String) (fallback : α)
    (check : List String → Value → Checked α) : Checked α :=
  match members.get? key with
  | some value => check (path ++ [key]) value
  | none => .ok fallback

def textOfBytes? (value : Bytes) : Option String :=
  (Utf8.decode value).toOption.map String.ofList

def checkText (path : List String) : Value → Checked String
  | .scalar (.text value) => .ok value
  | .scalar (.malformed value) => .ok value
  | .scalar (.bytes value) =>
    match textOfBytes? value with
    | some text => .ok text
    | none => .fail path .malformedText
  | _ => .fail path .notText

def checkTexts (path : List String) (value : Value) : Checked (List String) :=
  let checkAll (items : List Value) : Checked (List String) :=
    .all (items.zipIdx.map fun item => checkText (path ++ [toString item.2]) item.1)
  match value with
  | .list items => checkAll items
  | .set items => checkAll (items.map .scalar)
  | _ => .fail path .notList

def checkSwitch (path : List String) : Value → Checked Bool
  | .bool value => .ok value
  | _ => .fail path .notBool

def offWords : List String := ["0", "off", "f", "false", "n", "no"]

def onWords : List String := ["1", "on", "t", "true", "y", "yes"]

def leastWord : Int := -9223372036854775808

def greatestWord : Int := 9223372036854775807

def checkFlagNumber (path : List String) (value : Int) : Checked Bool :=
  if value = 0 then .ok false else if value = 1 then .ok true else .fail path .unreadableBool

def checkFlagWord (path : List String) (text : String) : Checked Bool :=
  let word := String.ofList (text.toList.map Char.toLower)
  if offWords.contains word then .ok false
  else if onWords.contains word then .ok true
  else .fail path .unreadableBool

/-- A flag may also be written as a number or a word. Whole numbers beyond 64 bits, fractions and
numbers of double precision that are no whole numbers within them are no flags at all. -/
def checkFlag (path : List String) : Value → Checked Bool
  | .scalar (.bool value) => .ok value
  | .scalar (.int value) =>
    if leastWord ≤ value && value ≤ greatestWord then checkFlagNumber path value
    else .fail path .notBool
  | .scalar (.real value) =>
    match value.toInt?.filter fun whole => leastWord < whole && whole ≤ greatestWord with
    | some whole => checkFlagNumber path whole
    | none => .fail path .notBool
  | .scalar (.text value) => checkFlagWord path value
  | .scalar (.malformed _) => .fail path .malformedText
  | .scalar (.bytes value) =>
    match textOfBytes? value with
    | some text => checkFlagWord path text
    | none => .fail path .unreadableBool
  | _ => .fail path .notBool

/-- The key that a switch is read from: its name with capital letters if that is there, else its
name with underscores. -/
def switchKey (members : Section) (switch : Switch) : String :=
  let camel := KeyCase.camel switch.name
  if members.contains camel then camel else switch.name

def setSwitches (options : Options) : List (Switch × Bool) → Options
  | [] => options
  | pair :: rest => setSwitches (options.set pair.2 pair.1) rest

def checkOptions (path : List String) : Value → Checked Options
  | .mapping members =>
    let checks := Switch.all.map fun switch =>
      (field path members (switchKey members switch) (Options.get {} switch) checkSwitch).map
        fun value => (switch, value)
    describe path (Switch.all.map (switchKey members)) members
      ((Checked.all checks).map (setSwitches {}))
  | _ => .fail path .notSection

def checkFiles (path : List String) : Value → Checked FileSettings
  | .mapping members =>
    let pattern := field path members "pattern" { : FileSettings }.pattern checkText
    let excluded := field path members "exclude_dirs" { : FileSettings }.excludeDirs checkTexts
    describe path ["pattern", "exclude_dirs"] members
      ((pattern.both excluded).map fun pair => ⟨pair.1, pair.2⟩)
  | _ => .fail path .notSection

def checkReport (path : List String) : Value → Checked ReportSettings
  | .mapping members =>
    let enabled := field path members "enabled" { : ReportSettings }.isEnabled checkFlag
    let target := field path members "path" { : ReportSettings }.path checkText
    describe path ["enabled", "path"] members
      ((enabled.both target).map fun pair => ⟨pair.1, pair.2⟩)
  | _ => .fail path .notSection

def check (members : Section) : Checked Settings :=
  let conversion := field [] members "conversion" {} checkOptions
  let files := field [] members "files" {} checkFiles
  let report := field [] members "report" {} checkReport
  describe [] ["conversion", "files", "report"] members
    ((conversion.both (files.both report)).map fun parts => ⟨parts.1, parts.2.1, parts.2.2⟩)

def ofSection (members : Section) : Except SettingsError Settings :=
  match normalizeKeys members with
  | .error fault => .error (.badKey fault)
  | .ok named =>
    if named.any fun member => !member.1.isText then .error (.badKey .unnamedSection)
    else (check named).mapError .invalid

end Settings

end DollarMath
