import DollarMath.Text.Utf8

/-!
The commands by which a system's clipboard is read and written.
-/

namespace DollarMath.Clipboard

abbrev CommandLine := List String

/-- What is known of the system: whether it has the pasteboard of a desktop of its own or is of the
family with a shell for objects, and else which tools are installed. -/
structure System where
  platform : String
  family : String
  tools : List String
deriving DecidableEq, Repr

inductive Tool where
  | pasteboard
  | shell
  | xclip
  | xsel
deriving DecidableEq, Repr

def tool? (system : System) : Option Tool :=
  if system.platform = "darwin" then some .pasteboard
  else if system.family = "nt" then some .shell
  else if system.tools.contains "xclip" then some .xclip
  else if system.tools.contains "xsel" then some .xsel
  else none

def Tool.reader : Tool → CommandLine
  | pasteboard => ["pbpaste"]
  | shell => ["powershell", "-NoProfile", "-Command", "Get-Clipboard"]
  | xclip => ["xclip", "-selection", "clipboard", "-o"]
  | xsel => ["xsel", "--clipboard", "--output"]

def Tool.writer : Tool → CommandLine
  | pasteboard => ["pbcopy"]
  | shell =>
    ["powershell", "-NoProfile", "-Command", "Set-Clipboard -Value ([Console]::In.ReadToEnd())"]
  | xclip => ["xclip", "-selection", "clipboard"]
  | xsel => ["xsel", "--clipboard", "--input"]

def readCommand? (system : System) : Option CommandLine :=
  (tool? system).map Tool.reader

def writeCommand? (system : System) : Option CommandLine :=
  (tool? system).map Tool.writer

/-- The text of the clipboard, given what the command printed; without a command it is the input. -/
def received (system : System) (printed : Bytes) (input : List Char) : List Char :=
  if (readCommand? system).isSome then Utf8.decodeLossy printed else input

/-- Whether a text goes to the clipboard, and what is shown: the text if it does not. -/
def send (system : System) (text : List Char) : Bool × List Char :=
  if (writeCommand? system).isSome then (true, []) else (false, text)

end DollarMath.Clipboard
