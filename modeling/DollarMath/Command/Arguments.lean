import DollarMath.Text.Lines

/-!
Options among the arguments of a command: long ones such as `--output`, also with a value after an
equals sign, and single letters such as `-o`, which may be joined. The program reads its arguments
with a library, whose documented rules these are. Theorems on commands take it as given which
command the arguments ask for.
-/

namespace DollarMath.Arguments

inductive UsageError where
  | unknownOption (name : String)
  | missingValue (name : String)
  | unexpectedValue (name : String)
  | unknownCommand (name : String)
  | missingCommand
  | missingArgument (name : String)
  | extraArgument (text : String)
  | noSuchPath (path : String)
  | notFile (path : String)
  | notFolder (path : String)
deriving DecidableEq, Repr

def UsageError.message : UsageError → String
  | unknownOption name => s!"No such option: {name}"
  | missingValue name => s!"Option '{name}' requires an argument."
  | unexpectedValue name => s!"Option '{name}' does not take a value."
  | unknownCommand name => s!"No such command '{name}'."
  | missingCommand => "Missing command."
  | missingArgument name => s!"Missing argument '{name}'."
  | extraArgument text => s!"Got unexpected extra argument ({text})"
  | noSuchPath path => s!"Path '{path}' does not exist."
  | notFile path => s!"Path '{path}' is a directory."
  | notFolder path => s!"Path '{path}' is a file."

inductive Meaning (α : Type) where
  | flag (mark : α)
  | valued (mark : String → α)

/-- The options that a command knows, by their long names and by their letters, and whether options
may also stand after other arguments. -/
structure Grammar (α : Type) where
  long : List (String × Meaning α)
  short : List (Char × Meaning α) := []
  allowsMixing : Bool := true

/-- What one argument with options says, and what waits for the next argument as its value. -/
structure Reading (α : Type) where
  marks : List α
  pending : Option (String → α)

def isOption (text : String) : Bool :=
  match text.toList with
  | '-' :: _ :: _ => true
  | _ => false

def readLetters {α : Type} (grammar : Grammar α) : List Char → Except UsageError (Reading α)
  | [] => .ok ⟨[], none⟩
  | letter :: rest =>
    match grammar.short.lookup letter with
    | none => .error (.unknownOption (String.ofList ['-', letter]))
    | some (.valued mark) =>
      if rest.isEmpty then .ok ⟨[], some mark⟩ else .ok ⟨[mark (String.ofList rest)], none⟩
    | some (.flag mark) =>
      (readLetters grammar rest).map fun reading => { reading with marks := mark :: reading.marks }

def splitEquals (text : String) : String × Option String :=
  let chars := text.toList
  let name := chars.takeWhile (· != '=')
  match chars.drop name.length with
  | [] => (text, none)
  | _ :: value => (String.ofList name, some (String.ofList value))

def readOption {α : Type} (grammar : Grammar α) (text : String) :
    Except UsageError (Reading α) :=
  let (name, value?) := splitEquals text
  match grammar.long.lookup name, value? with
  | some (.valued mark), some value => .ok ⟨[mark value], none⟩
  | some (.valued mark), none => .ok ⟨[], some mark⟩
  | some (.flag mark), none => .ok ⟨[mark], none⟩
  | some (.flag _), some _ => .error (.unexpectedValue name)
  | none, _ =>
    if "--".toList.isPrefixOf text.toList then .error (.unknownOption name)
    else readLetters grammar (text.toList.drop 1)

def read {α : Type} (grammar : Grammar α) :
    List String → Except UsageError (List α × List String)
  | [] => .ok ([], [])
  | text :: rest =>
    if text = "--" then .ok ([], rest)
    else if isOption text then
      match readOption grammar text with
      | .error error => .error error
      | .ok ⟨marks, none⟩ => (read grammar rest).map fun parts => (marks ++ parts.1, parts.2)
      | .ok ⟨marks, some mark⟩ =>
        match rest with
        | [] => .error (.missingValue text)
        | value :: after =>
          (read grammar after).map fun parts => (marks ++ mark value :: parts.1, parts.2)
    else if grammar.allowsMixing then
      (read grammar rest).map fun parts => (parts.1, text :: parts.2)
    else .ok ([], text :: rest)

end DollarMath.Arguments
