import DollarMath.Settings.Load
import DollarMath.Text.Lowercase
import DollarMath.Text.Word

/-!
Changing one setting in the user's file.
-/

namespace DollarMath

inductive ChangeError where
  | notMapping (value : Value)
  | notSection (key : String)
  | badNumber (fault : NumeralFault)
  | unusable (error : SettingsError)

namespace Settings

/-- The value that a text stands for: true or false in any case, a number if it consists of digits,
and else the text itself. Digits that are not decimal make no number. -/
def parseValue (text : String) : Except ChangeError Value :=
  let chars := text.toList
  let word := String.ofList (Text.lower chars)
  if word = "true" then .ok (.bool true)
  else if word = "false" then .ok (.bool false)
  else if !chars.isEmpty && chars.all Text.isAnyDigit then
    ((Numeral.int? 10 chars).map Value.int).mapError .badNumber
  else .ok (.text text)

def keyPath (key : String) : List String :=
  (Text.splitAt '.' key.toList).map String.ofList

def putAt (value : Except ChangeError Value) (members : Section) :
    List String → Except ChangeError Section
  | [] => .ok members
  | [key] => value.map fun new => members.put key new
  | key :: next :: rest =>
    match members.get? key with
    | none => (putAt value [] (next :: rest)).map fun inner => members.put key (.mapping inner)
    | some (.mapping held) =>
      (putAt value held (next :: rest)).map fun inner => members.put key (.mapping inner)
    | some _ => .error (.notSection key)

/-- The section that a user's value holds, if an empty value counts as an empty section. -/
def userSection (user : Value) : Except ChangeError Section :=
  if user.isEmpty then .ok []
  else
    match user with
    | .mapping members => .ok members
    | value => .error (.notMapping value)

def change (user : Value) (key text : String) : Except ChangeError Section :=
  let path := keyPath key
  let value := parseValue text
  match userSection user, path, value with
  | .error _, [_], .error error => .error error
  | .error error, _, _ => .error error
  | .ok members, _, _ =>
    (putAt value members path).bind fun put =>
      match normalizeKeys put with
      | .error fault => .error (.unusable (.badKey fault))
      | .ok changed =>
        match ofSection (Section.merge defaults changed) with
        | .ok _ => .ok changed
        | .error error => .error (.unusable error)

end Settings

end DollarMath
