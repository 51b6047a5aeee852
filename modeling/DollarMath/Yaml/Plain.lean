import DollarMath.Yaml.Cursor

/-!
Unquoted scalars, which go on over lines that are indented enough. This follows the published rules
of YAML 1.1, as all of the reader, which the program has from a library.
-/

namespace DollarMath.Yaml

def isFlowMark (char : Char) : Bool :=
  char == ',' || char == '?' || char == '[' || char == ']' || char == '{' || char == '}'

def separates (flow : Bool) (rest : List Char) : Bool :=
  endsToken rest || (flow && rest.head?.any fun char => isFlowMark char && char != '?')

def plainRun (flow : Bool) : List Char → List Char
  | [] => []
  | char :: rest =>
    if endsToken [char] then []
    else if char == ':' && separates flow rest then []
    else if flow && isFlowMark char then []
    else char :: plainRun flow rest

def isIndicator (char : Char) : Bool :=
  "-?:,[]\x7b\x7d#&*!|>'\"%@\x60".toList.contains char

/-- Whether an unquoted scalar starts here. A hyphen, and outside brackets a question mark or a
colon, may start one if no blank follows. -/
def startsPlain (flow : Bool) : List Char → Bool
  | [] => false
  | char :: rest =>
    (!isIndicator char && !endsToken [char]) ||
      (!endsToken rest && (char == '-' || (!flow && (char == '?' || char == ':'))))

/-- Line breaks between two parts of a scalar: a single one is a space, and of more the first is
left out, if it is an ordinary one. -/
def folded : List Char → List Char
  | [] => []
  | first :: more =>
    if first != '\n' then first :: more else if more.isEmpty then [' '] else more

def plainBreaks : (fuel : Nat) → Cursor → Option (List Char) × Cursor
  | 0, cursor => (some [], cursor)
  | fuel + 1, cursor =>
    match cursor.rest with
    | [] => (some [], cursor)
    | char :: rest =>
      if isBreak char then
        if isSeparator rest then (none, cursor.next)
        else
          let (more, last) := plainBreaks fuel cursor.next
          (more.map (breakOf char :: ·), last)
      else if char == ' ' then plainBreaks fuel cursor.next
      else (some [], cursor)

def joint (cursor : Cursor) : Option (List Char) × Cursor × Bool :=
  let blanks := cursor.rest.takeWhile (· == ' ')
  let there := cursor.skipSpaces
  if there.rest.head?.any isBreak then
    let (breaks, next) := plainBreaks there.rest.length there
    (breaks.map folded, next, true)
  else if blanks.isEmpty then (none, there, false)
  else (some blanks, there, false)

/-- An unquoted scalar: its text, the place after it and the blanks that follow it, and whether it
ended with a line. Outside brackets it goes on at the given column or further right only. -/
def plain (flow : Bool) (least : Int) (ended : Bool) :
    (fuel : Nat) → Cursor → List Char × Cursor × Bool
  | 0, cursor => ([], cursor, ended)
  | fuel + 1, cursor =>
    let run := plainRun flow cursor.rest
    if run.isEmpty || cursor.rest.head? == some '#' then ([], cursor, ended)
    else
      match joint (cursor.advance run.length) with
      | (none, after, broke) => (run, after, broke)
      | (some between, next, broke) =>
        if !flow && next.column < least then (run, next, broke)
        else
          let (more, last, finished) := plain flow least broke fuel next
          (if more.isEmpty then run else run ++ between ++ more, last, finished)

end DollarMath.Yaml
