import DollarMath.Console.Emoji
import DollarMath.Console.Literal
import DollarMath.Console.Style
import DollarMath.Text.Quoted

/-!
Markup of lines for a terminal: tags such as `[bold]` and `[/bold]` set a style and are not shown. A
backslash before a tag makes it plain text. These are the documented rules of the library that the
program prints with.
-/

namespace DollarMath.Console

structure Tag where
  name : List Char
  parameters : Option (List Char)
deriving DecidableEq, Repr

inductive MarkupError where
  | unmatched (tag : Tag) (position : Nat)
  | nothingToClose (position : Nat)
  | badAction (arguments action : List Char)
  | badColor (fault : NumeralFault)
deriving DecidableEq, Repr

namespace Tag

def ofText (body : List Char) : Tag :=
  let name := body.takeWhile (· != '=')
  ⟨name, if name.length < body.length then some (body.drop (name.length + 1)) else none⟩

def source (tag : Tag) : List Char :=
  let rest := match tag.parameters with
    | some parameters => '=' :: parameters
    | none => []
  '[' :: tag.name ++ rest ++ [']']

/-- The arguments of an action, which stand in brackets after its name. What is written otherwise is
taken as the arguments of an action without a name. -/
def arguments (action : List Char) : List Char :=
  let name := action.takeWhile fun char => Text.isWord char || char == '.'
  match action.drop name.length with
  | [] => ['(', ')']
  | '(' :: rest =>
    if rest.getLast? = some ')' && !rest.contains '\n' then '(' :: rest else action
  | _ => action

def checkAction (tag : Tag) : Except MarkupError Unit :=
  match tag.name, tag.parameters with
  | '@' :: _, some action =>
    let found := arguments (Text.strip action)
    if action.isEmpty || Literal.isLiteral found then .ok () else .error (.badAction found action)
  | _, _ => .ok ()

end Tag

def MarkupError.message : MarkupError → String
  | unmatched tag position =>
    s!"closing tag '{String.ofList tag.source}' at position {position} " ++
      "doesn't match any open tag"
  | nothingToClose position => s!"closing tag '[/]' at position {position} has nothing to close"
  | badAction arguments action =>
    let shown (text : List Char) : String := Text.quoted (String.ofList text)
    s!"error parsing {shown arguments} in {shown action}; {Literal.complaint arguments}"
  | badColor fault => fault.message

def startsTag (char : Char) : Bool :=
  ('a' ≤ char && char ≤ 'z') || char == '#' || char == '/' || char == '@'

def tag? : List Char → Option (List Char × List Char)
  | '[' :: first :: rest =>
    let body := rest.takeWhile fun char => char != '[' && char != ']'
    match rest.drop body.length with
    | ']' :: after => if startsTag first then some (first :: body, after) else none
    | _ => none
  | _ => none

/-- A tag with the backslashes before it; what is read is their number and what the tag holds. -/
def markedTag : Text.Recognizer (Nat × List Char) :=
  fun _ text =>
    let marks := text.takeWhile (· == '\\')
    (tag? (text.drop marks.length)).map fun found =>
      (text.length - found.2.length, (marks.length, found.1))

inductive Part where
  | free (text : List Char)
  | plain (text : List Char)
  | tag (offset : Nat) (tag : Tag)
deriving DecidableEq, Repr

def Part.cons (char : Char) : List Part → List Part
  | .free text :: parts => .free (char :: text) :: parts
  | parts => .free [char] :: parts

/-- The parts of searched markup, which starts at the given offset. Of two backslashes before a tag
one is shown, and a single one makes the tag plain text. -/
def Part.ofFound (offset : Nat) : List (Text.Found (Nat × List Char)) → List Part
  | [] => []
  | .gap char :: rest => cons char (ofFound (offset + 1) rest)
  | .hit _ found (marks, body) _ :: rest =>
    let slashes := Part.plain (List.replicate (marks / 2) '\\')
    let part :=
      if marks % 2 = 1 then .plain ('[' :: body ++ [']'])
      else .tag (offset + 2 * (marks / 2)) (Tag.ofText body)
    slashes :: part :: ofFound (offset + found.length) rest

def dropEscapes : List Char → List Char
  | [] => []
  | char :: rest =>
    if char = '\\' && rest.head? = some '[' then dropEscapes rest else char :: dropEscapes rest

def close? (name : List Char) : List Tag → Option (Tag × List Tag)
  | [] => none
  | tag :: tags =>
    if tag.name = name then some (tag, tags)
    else (close? name tags).map fun found => (found.1, tag :: found.2)

def styleName (text : List Char) : Except MarkupError (List Char) :=
  (Style.normalName text).mapError .badColor

def afterClosing (tags : List Tag) (tag : Tag) (closing : List Char) (offset : Nat) :
    Except MarkupError (List Tag) := do
  if Text.allBlank closing then
    match tags with
    | [] => throw (.nothingToClose offset)
    | last :: rest =>
      last.checkAction
      return rest
  else
    match close? (← styleName (Text.strip closing)) tags with
    | none => throw (.unmatched tag offset)
    | some (found, rest) =>
      found.checkAction
      return rest

def afterTag (tags : List Tag) (tag : Tag) (offset : Nat) : Except MarkupError (List Tag) :=
  match tag.name with
  | '/' :: closing => afterClosing tags tag closing offset
  | name => (styleName name).map fun name => ⟨name, tag.parameters⟩ :: tags

def shown (tags : List Tag) : List Part → Except MarkupError (List Char)
  | [] => .ok []
  | .free text :: rest => (shown tags rest).map (Emoji.replace (dropEscapes text) ++ ·)
  | .plain text :: rest => (shown tags rest).map (Emoji.replace text ++ ·)
  | .tag offset tag :: rest => (afterTag tags tag offset).bind fun left => shown left rest

def isDropped (char : Char) : Bool :=
  let code := char.toNat
  code == 7 || code == 8 || (11 ≤ code && code ≤ 13)

def render (markup : List Char) : Except MarkupError (List Char) :=
  (shown [] (Part.ofFound 0 (Text.scan markedTag none markup))).map fun text =>
    text.filter fun char => !isDropped char

def escape (text : List Char) : List Char :=
  let marked := (Text.scan markedTag none text).flatMap fun
    | .gap char => [char]
    | .hit _ _ (marks, body) _ =>
      List.replicate (2 * marks + 1) '\\' ++ '[' :: body ++ [']']
  if marked.getLast? = some '\\' && marked.dropLast.getLast? ≠ some '\\' then marked ++ ['\\']
  else marked

end DollarMath.Console
