import DollarMath.Settings.Value

/-!
Settings laid over other settings, section by section.
-/

namespace DollarMath

mutual

/-- A value laid over an old one: two mappings are merged, and anything else is replaced. -/
def Value.over (old : Value) : Value → Value
  | .mapping update =>
    match old with
    | .mapping base => .mapping (Section.merge base update)
    | _ => .mapping update
  | new => new

def Section.merge (base : Section) : Section → Section
  | [] => base
  | member :: rest => Section.merge (Section.putOver base member) rest

def Section.putOver (base : Section) : Scalar × Value → Section
  | (key, value) =>
    match Section.find? base key with
    | some old => Section.assign key (Value.over old value) base
    | none => Section.assign key value base

end

end DollarMath
