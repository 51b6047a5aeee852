import DollarMath.Settings.Check
import DollarMath.Settings.Merge
import DollarMath.Text.Utf8
import DollarMath.Yaml.Meaning

/-!
The settings in force: the defaults with the user's file laid over them.
-/

namespace DollarMath

inductive LoadError where
  | undecodable (error : Utf8.DecodeError)
  | unreadable (error : Yaml.ReadError)
  | notMapping (value : Value)
  | unusable (error : SettingsError)

namespace Settings

def userValue (file : Bytes) : Except LoadError Value :=
  match Utf8.decode file with
  | .error error => .error (.undecodable error)
  | .ok text =>
    match Yaml.read (String.ofList text) with
    | .error error => .error (.unreadable error)
    | .ok value => .ok value

def ofUserSection (user : Section) : Except SettingsError Settings :=
  match normalizeKeys user with
  | .error fault => .error (.badKey fault)
  | .ok normal => ofSection (Section.merge defaults normal)

/-- The settings that a user's value makes of the defaults. An empty value changes nothing. -/
def ofUser (user : Value) : Except LoadError Settings :=
  if user.isEmpty then (ofUserSection []).mapError .unusable
  else
    match user with
    | .mapping members => (ofUserSection members).mapError .unusable
    | value => .error (.notMapping value)

def load (file : Option Bytes) : Except LoadError Settings :=
  match file with
  | none => ofUser .null
  | some bytes => (userValue bytes).bind ofUser

end Settings

end DollarMath
