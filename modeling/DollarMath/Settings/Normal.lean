import DollarMath.Settings.KeyCase
import DollarMath.Settings.Value

/-!
Sections whose switches are named in lower case with underscores, however their keys were spelled.
-/

namespace DollarMath

inductive KeyFault where
  | unnamedSwitch (key : Scalar)
  | unnamedSection
deriving DecidableEq, Repr

def KeyFault.message : KeyFault → String
  | unnamedSwitch (.bytes _) => "cannot use a string pattern on a bytes-like object"
  | unnamedSwitch key => s!"expected string or bytes-like object, got '{key.kindName}'"
  | unnamedSection => "keywords must be strings"

namespace Settings

def normalKey : Scalar → Except KeyFault Scalar
  | .text key => .ok (.text (KeyCase.snake key))
  | .malformed key => .ok (.malformed (KeyCase.snake key))
  | key => .error (.unnamedSwitch key)

/-- The switches under their normal keys. Where two keys become one, the later value stands at the
earlier place. -/
def normalSwitches (switches : Section) : Except KeyFault Section :=
  (switches.mapM fun member => (normalKey member.1).map fun key => (key, member.2)).map
    Section.ofPairs

def normalizeKeys (members : Section) : Except KeyFault Section :=
  match members.get? "conversion" with
  | some (.mapping switches) =>
    (normalSwitches switches).map fun normal => members.put "conversion" (.mapping normal)
  | _ => .ok members

end Settings

end DollarMath
