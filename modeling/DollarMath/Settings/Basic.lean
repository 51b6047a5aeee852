import DollarMath.Conversion.Options
import DollarMath.Settings.Value

/-!
The settings of the program, and what they are unless changed.
-/

namespace DollarMath

structure FileSettings where
  pattern : String := "*.md"
  excludeDirs : List String := [".git", ".obsidian", ".trash", "node_modules"]
deriving DecidableEq, Repr

structure ReportSettings where
  isEnabled : Bool := false
  path : String := "mathdelim-report.json"
deriving DecidableEq, Repr

structure Settings where
  conversion : Options := {}
  files : FileSettings := {}
  report : ReportSettings := {}
deriving DecidableEq, Repr

namespace Settings

def toSection (settings : Settings) : Section :=
  [("conversion", .mapping (Switch.all.map fun switch =>
      (switch.name, .bool (settings.conversion.get switch)))),
    ("files", .mapping [
      ("pattern", .text settings.files.pattern),
      ("exclude_dirs", .list (settings.files.excludeDirs.map .text))]),
    ("report", .mapping [
      ("enabled", .bool settings.report.isEnabled),
      ("path", .text settings.report.path)])]

def defaults : Section :=
  toSection {}

end Settings

end DollarMath
