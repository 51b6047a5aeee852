/-!
The switches of a conversion.
-/

namespace DollarMath

structure Options where
  pasteConversion : Bool := true
  environments : Bool := true
  parens : Bool := false
  squares : Bool := false
  bareTokens : Bool := false
  formulaLines : Bool := false
deriving DecidableEq, Repr

inductive Switch where
  | pasteConversion
  | environments
  | parens
  | squares
  | bareTokens
  | formulaLines
deriving DecidableEq, Repr

namespace Switch

def all : List Switch :=
  [pasteConversion, environments, parens, squares, bareTokens, formulaLines]

def name : Switch → String
  | pasteConversion => "enable_default_paste_conversion"
  | environments => "wrap_matrix_envs_in_display_math"
  | parens => "plain_parens_as_delimiters"
  | squares => "plain_brackets_as_delimiters"
  | bareTokens => "convert_bare_inline_latex"
  | formulaLines => "wrap_bare_math_single_lines"

theorem mem_all (switch : Switch) : switch ∈ all := by
  cases switch <;> decide

end Switch

namespace Options

def get (options : Options) : Switch → Bool
  | .pasteConversion => options.pasteConversion
  | .environments => options.environments
  | .parens => options.parens
  | .squares => options.squares
  | .bareTokens => options.bareTokens
  | .formulaLines => options.formulaLines

def set (options : Options) (value : Bool) : Switch → Options
  | .pasteConversion => { options with pasteConversion := value }
  | .environments => { options with environments := value }
  | .parens => { options with parens := value }
  | .squares => { options with squares := value }
  | .bareTokens => { options with bareTokens := value }
  | .formulaLines => { options with formulaLines := value }

theorem get_set (options : Options) (value : Bool) (changed switch : Switch) :
    (options.set value changed).get switch =
      if switch = changed then value else options.get switch := by
  cases changed <;> cases switch <;> rfl

end Options

end DollarMath
