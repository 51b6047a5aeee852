import DollarMath.Command.Arguments
import DollarMath.Conversion.Options
import DollarMath.Files.Disk

/-!
The commands of the program, and how arguments spell them.
-/

namespace DollarMath

open Arguments (UsageError Grammar Meaning)

/-- Switches set on the command line in the order given, so that the last one counts. -/
abbrev Overrides := List (Switch × Bool)

inductive Command where
  | help
  | convert (file output : Option Path) (inPlace check : Bool) (overrides : Overrides)
  | convertAll (folder : Path) (report : Option Path) (check : Bool) (overrides : Overrides)
  | paste (overrides : Overrides)
  | validate (source converted : Path)
  | showSettings
  | changeSetting (key value : String)
deriving DecidableEq, Repr

inductive PathUse where
  | target
  | file
  | folder
deriving DecidableEq, Repr

structure PathArgument where
  text : String
  use : PathUse
deriving DecidableEq, Repr

def PathArgument.path (argument : PathArgument) : Path :=
  .ofString argument.text

structure Request where
  paths : List PathArgument
  command : Except UsageError Command

inductive Refusal where
  | usage (error : UsageError)
  | path (error : FileError)

namespace Request

def ofCommand (command : Except UsageError Command) : Request :=
  ⟨[], command⟩

def checkPath (disk : Disk) (argument : PathArgument) : Except Refusal Unit :=
  let path := argument.path
  if path.fault? = some .nullByte then .error (.path ⟨.nullByte, path⟩)
  else
    match argument.use, disk.node? path with
    | .target, _ => .ok ()
    | _, none => .error (.usage (.noSuchPath argument.text))
    | .file, some (.folder _) => .error (.usage (.notFile argument.text))
    | .folder, some (.file _) => .error (.usage (.notFolder argument.text))
    | _, _ => .ok ()

def command? (disk : Disk) (request : Request) : Except Refusal Command :=
  (request.paths.forM (checkPath disk)).bind fun _ => request.command.mapError .usage

end Request

namespace Command

inductive Mark where
  | verbose
  | help
  | switch (switch : Switch) (value : Bool)
  | inPlace
  | check
  | output (path : String)
  | report (path : String)
deriving DecidableEq, Repr

def switchNames : List (String × Switch) :=
  [("parens", .parens), ("brackets", .squares), ("bare-latex", .bareTokens),
    ("bare-lines", .formulaLines), ("wrap-envs", .environments)]

def helpOption : String × Meaning Mark :=
  ("--help", .flag .help)

def switchOptions : List (String × Meaning Mark) :=
  switchNames.flatMap fun named =>
    [("--" ++ named.1, .flag (.switch named.2 true)),
      ("--no-" ++ named.1, .flag (.switch named.2 false))]

def outerGrammar : Grammar Mark where
  long := [helpOption, ("--verbose", .flag .verbose)]
  short := [('v', .flag .verbose)]
  allowsMixing := false

def settingsGrammar : Grammar Mark where
  long := [helpOption]
  allowsMixing := false

def plainGrammar : Grammar Mark where
  long := [helpOption]

def pasteGrammar : Grammar Mark where
  long := helpOption :: switchOptions

def convertGrammar : Grammar Mark where
  long := helpOption :: ("--output", .valued .output) :: ("--in-place", .flag .inPlace) ::
    ("--check", .flag .check) :: switchOptions
  short := [('o', .valued .output)]

def convertAllGrammar : Grammar Mark where
  long := helpOption :: ("--check", .flag .check) :: ("--report", .valued .report) ::
    switchOptions

def overrides (marks : List Mark) : Overrides :=
  marks.filterMap fun
    | .switch switch value => some (switch, value)
    | _ => none

def output? (marks : List Mark) : Option String :=
  marks.reverse.findSome? fun
    | .output path => some path
    | _ => none

def report? (marks : List Mark) : Option String :=
  marks.reverse.findSome? fun
    | .report path => some path
    | _ => none

def reading (grammar : Grammar Mark) (arguments : List String)
    (make : List Mark → List String → Except UsageError Request) : Except UsageError Request :=
  (Arguments.read grammar arguments).bind fun (marks, words) =>
    if marks.contains .help then .ok (.ofCommand (.ok .help)) else make marks words

def pathArguments (target : Option String) (use : PathUse) (words : List String) :
    List PathArgument :=
  target.toList.map (⟨·, .target⟩) ++ words.map (⟨·, use⟩)

def ofConvert (marks : List Mark) (words : List String) : Request :=
  let output := output? marks
  let command (file : Option String) : Command :=
    .convert (file.map .ofString) (output.map .ofString) (marks.contains .inPlace)
      (marks.contains .check) (overrides marks)
  ⟨pathArguments output .file (words.take 1),
    match words with
    | [] => .ok (command none)
    | [file] => .ok (command (some file))
    | _ :: extra :: _ => .error (.extraArgument extra)⟩

def ofConvertAll (marks : List Mark) (words : List String) : Request :=
  let report := report? marks
  ⟨pathArguments report .folder (words.take 1),
    match words with
    | [] => .error (.missingArgument "DIRECTORY")
    | [folder] =>
      .ok (.convertAll (.ofString folder) (report.map .ofString) (marks.contains .check)
        (overrides marks))
    | _ :: extra :: _ => .error (.extraArgument extra)⟩

def ofPaste (marks : List Mark) : List String → Request
  | [] => .ofCommand (.ok (.paste (overrides marks)))
  | extra :: _ => .ofCommand (.error (.extraArgument extra))

def ofValidate (words : List String) : Request :=
  ⟨pathArguments none .file (words.take 2),
    match words with
    | [] => .error (.missingArgument "ORIGINAL")
    | [_] => .error (.missingArgument "CONVERTED")
    | [source, converted] => .ok (.validate (.ofString source) (.ofString converted))
    | _ :: _ :: extra :: _ => .error (.extraArgument extra)⟩

def ofShow : List String → Request
  | [] => .ofCommand (.ok .showSettings)
  | extra :: _ => .ofCommand (.error (.extraArgument extra))

def ofSet (words : List String) : Request :=
  .ofCommand (match words with
    | [] => .error (.missingArgument "KEY")
    | [_] => .error (.missingArgument "VALUE")
    | [key, value] => .ok (.changeSetting key value)
    | _ :: _ :: extra :: _ => .error (.extraArgument extra))

def ofSettingsArguments (arguments : List String) : Except UsageError Request :=
  reading settingsGrammar arguments fun _ words =>
    match words with
    | [] => .error .missingCommand
    | "show" :: rest => reading plainGrammar rest fun _ words => .ok (ofShow words)
    | "set" :: rest => reading plainGrammar rest fun _ words => .ok (ofSet words)
    | name :: _ => .error (.unknownCommand name)

def ofArguments (arguments : List String) : Except UsageError Request :=
  reading outerGrammar arguments fun _ words =>
    match words with
    | [] => .error .missingCommand
    | "convert" :: rest =>
      reading convertGrammar rest fun marks words => .ok (ofConvert marks words)
    | "convert-all" :: rest =>
      reading convertAllGrammar rest fun marks words => .ok (ofConvertAll marks words)
    | "paste" :: rest => reading pasteGrammar rest fun marks words => .ok (ofPaste marks words)
    | "validate" :: rest => reading plainGrammar rest fun _ words => .ok (ofValidate words)
    | "config" :: rest => ofSettingsArguments rest
    | name :: _ => .error (.unknownCommand name)

end Command

end DollarMath
