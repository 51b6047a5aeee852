import DollarMath.Console.Layout
import DollarMath.Console.Markup

/-!
What a terminal shows of a line of markup, and a box around a line. Control sequences, such as those
that set a color, are left out of text that goes elsewhere. The program prints with a library, by
whose documented rules a line is shown here. Theorems do not look into them: that a line can be
shown is a hypothesis of theirs, `Command.ShowsChange`.
-/

namespace DollarMath.Console

def escapeChar : Char := '\x1b'

def isParameter (char : Char) : Bool :=
  char.isDigit || char == ';' || char == '?'

def sequence : Text.Recognizer Unit
  | _, first :: '[' :: rest =>
    let parameters := rest.takeWhile isParameter
    if first = escapeChar && (rest.drop parameters.length).head?.any Char.isAlpha then
      some (parameters.length + 3, ())
    else none
  | _, _ => none

def dropSequences (text : List Char) : List Char :=
  (Text.scan sequence none text).flatMap fun
    | .gap char => [char]
    | .hit _ _ _ _ => []

def terminalColumns : Nat := 4000

def shownLines (text : List Char) : String :=
  String.ofList ((layOut terminalColumns text).flatMap (· ++ ['\n']))

def line (markup : String) : Except MarkupError String :=
  (render markup.toList).map shownLines

def greatestWidth (text : List Char) : Nat :=
  ((Text.lines text).map width).foldl max 0

def boxLine (columns : Nat) (text : List Char) : String :=
  let padded := String.ofList (text ++ List.replicate (columns - width text) ' ')
  s!"│ {padded} │\n"

/-- A box around the text that is shown of markup, as wide as the text with its tabs left out. -/
def box (markup : String) : Except MarkupError String :=
  (render markup.toList).map fun text =>
    let columns := min (greatestWidth text) (terminalColumns - 4)
    let edge := String.ofList (List.replicate (columns + 2) '─')
    let lines := (layOut columns text).map (boxLine columns)
    s!"╭{edge}╮\n{String.join lines}╰{edge}╯\n"

end DollarMath.Console
