import DollarMath.Console.Color

/-!
Styles of text on a terminal, such as `bold red on white`, and the one name for all definitions of
the same style. These are the documented rules of the library that the program prints with.
-/

namespace DollarMath.Console

inductive Effect where
  | bold
  | dim
  | italic
  | underline
  | blink
  | blinkFast
  | reverse
  | conceal
  | strike
  | underlineTwice
  | frame
  | encircle
  | overline
deriving DecidableEq, Repr

namespace Effect

def all : List Effect :=
  [bold, dim, italic, underline, blink, blinkFast, reverse, conceal, strike, underlineTwice, frame,
    encircle, overline]

def name : Effect → String
  | bold => "bold"
  | dim => "dim"
  | italic => "italic"
  | underline => "underline"
  | blink => "blink"
  | blinkFast => "blink2"
  | reverse => "reverse"
  | conceal => "conceal"
  | strike => "strike"
  | underlineTwice => "underline2"
  | frame => "frame"
  | encircle => "encircle"
  | overline => "overline"

def letters? : Effect → Option String
  | bold => some "b"
  | dim => some "d"
  | italic => some "i"
  | underline => some "u"
  | reverse => some "r"
  | conceal => some "c"
  | strike => some "s"
  | underlineTwice => some "uu"
  | overline => some "o"
  | _ => none

def ofWord? (word : List Char) : Option Effect :=
  let word := String.ofList word
  all.find? fun effect => effect.name == word || effect.letters? == some word

end Effect

/-- A style. Of what is set twice the last counts, and in the list it comes first. -/
structure Style where
  effects : List (Effect × Bool) := []
  color : Option (List Char) := none
  background : Option (List Char) := none
  link : Option (List Char) := none
deriving DecidableEq, Repr

namespace Style

inductive Lead where
  | on
  | not
  | link
deriving DecidableEq, Repr

def Lead.ofWord? (word : List Char) : Option Lead :=
  [("on", on), ("not", not), ("link", Lead.link)].lookup (String.ofList word)

def withWord? (style : Style) (word : List Char) : Except NumeralFault (Option Style) :=
  match Effect.ofWord? word with
  | some effect => .ok (some { style with effects := (effect, true) :: style.effects })
  | none =>
    (Color.ofWord? word).map fun color? => color?.map fun color =>
      { style with color := some color }

def withPair? (style : Style) (lead : Lead) (word : List Char) :
    Except NumeralFault (Option Style) :=
  match lead with
  | .on =>
    (Color.ofWord? word).map fun color? => color?.map fun color =>
      { style with background := some color }
  | .not =>
    .ok ((Effect.ofWord? word).map fun effect =>
      { style with effects := (effect, false) :: style.effects })
  | .link => .ok (some { style with link := some word })

def ofWords? (style : Style) : List (List Char) → Except NumeralFault (Option Style)
  | [] => .ok (some style)
  | word :: rest =>
    let plain := Text.lower word
    match Lead.ofWord? plain, rest with
    | some _, [] => .ok none
    | some lead, next :: later =>
      match style.withPair? lead next with
      | .ok (some further) => further.ofWords? later
      | other => other
    | none, rest =>
      match style.withWord? plain with
      | .ok (some further) => further.ofWords? rest
      | other => other

def words (style : Style) : List (List Char) :=
  let effects := Effect.all.filterMap fun effect =>
    (style.effects.lookup effect).map fun set =>
      (if set then effect.name else "not " ++ effect.name).toList
  let background := style.background.toList.flatMap fun color => ["on".toList, color]
  let link := style.link.toList.flatMap fun target => ["link".toList, target]
  effects ++ style.color.toList ++ background ++ link

def noneName : List Char := "none".toList

def name (style : Style) : List Char :=
  if style.words.isEmpty then noneName else [' '].intercalate style.words

/-- The name of the style that a text defines. A text that defines none names itself, blanks at its
ends and upper case apart. -/
def normalName (text : List Char) : Except NumeralFault (List Char) :=
  if Text.strip text = noneName then .ok noneName
  else
    (ofWords? {} (Text.words text)).map fun style? =>
      match style? with
      | some style => style.name
      | none => Text.lower (Text.strip text)

end Style

end DollarMath.Console
