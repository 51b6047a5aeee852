import DollarMath.Console.Emoji.Flags
import DollarMath.Console.Emoji.People
import DollarMath.Console.Emoji.Signs
import DollarMath.Console.Width
import DollarMath.Text.Blank
import DollarMath.Text.Lowercase
import DollarMath.Text.Scan

/-!
Emoji by name: a name between colons, such as `:smile:`, stands for the sign. The names are
documented by the library that the program prints with.
-/

namespace DollarMath.Console.Emoji

def tones : List (String × Char) :=
  [("light", '🏻'), ("medium-light", '🏼'), ("medium", '🏽'), ("medium-dark", '🏾'), ("dark", '🏿')]

/-- The sign in a tone of skin. The modifier takes the place of a mark for emoji. -/
def withTone (tone : Char) : List Char → List Char
  | [] => [tone]
  | char :: rest =>
    char :: tone :: (if rest.head? = some emojiMark then rest.drop 1 else rest)

def flagLetter (letter : Char) : Char :=
  Char.ofNat ('🇦'.toNat + letter.toNat - 'A'.toNat)

def signEntries (entry : String × String) : List (String × List Char) :=
  (Text.words entry.2.toList).map fun name => (String.ofList name, entry.1.toList)

def peopleEntries (entry : String × String) : List (String × List Char) :=
  let (sign, name) := entry
  (name, sign.toList) :: tones.map fun tone =>
    (s!"{name}_{tone.1}_skin_tone", withTone tone.2 sign.toList)

def flagEntries (entry : String × String) : List (String × List Char) :=
  let sign := entry.1.toList.map flagLetter
  [(entry.2, sign), ("flag_for_" ++ entry.2, sign)]

def entries : List (String × List Char) :=
  signs.flatMap signEntries ++ people.flatMap peopleEntries ++ flags.flatMap flagEntries

/-- Endings of a name that ask for one of the forms of a sign, with the mark for that form. -/
def forms : List (String × Char) :=
  [("-emoji", emojiMark), ("-text", '\ufe0e')]

def ofName? (name : List Char) : Option (List Char) :=
  let form? := forms.find? fun form => form.1.toList.isSuffixOf name
  let size := match form? with
    | some form => name.length - form.1.length
    | none => name.length
  (entries.lookup (String.ofList (Text.lower (name.take size)))).map fun sign =>
    sign ++ (form?.map Prod.snd).toList

def colonName : Text.Recognizer (List Char)
  | _, ':' :: rest =>
    let name := rest.takeWhile fun char => char != ':' && !Text.isBlank char
    if rest[name.length]? = some ':' then some (name.length + 2, name) else none
  | _, _ => none

def replace (text : List Char) : List Char :=
  (Text.scan colonName none text).flatMap fun
    | .gap char => [char]
    | .hit _ found name _ => (ofName? name).getD found

end DollarMath.Console.Emoji
