/-!
The words and signs by which a text is read as mathematics or as prose. They are tuned on examples
and may be adjusted; nothing else depends on their spelling.
-/

namespace DollarMath.Formula

def contextWindow : Nat := 60

def maxProseWords : Nat := 4

def wordList (words : List String) : List (List Char) :=
  words.map String.toList

def nounStems : List (List Char) := wordList
  ["matri", "vector", "eigen", "polynomial", "gradient", "scalar", "tensor", "derivative",
   "integral", "coefficient", "determinant", "equation", "variable", "coordinate",
   "subspace", "basis"]

def ordinalWords : List (List Char) := wordList
  ["th", "st", "nd", "rd", "degree", "dim", "term", "mode", "harmonic", "component", "order",
   "entry", "row", "column"]

def referenceWords : List (List Char) := wordList
  ["note", "notes", "see", "ref", "fig", "figure", "table", "section", "chapter", "appendix"]

def functionNames : List (List Char) := wordList
  ["sin", "cos", "tan", "cot", "sec", "csc", "sinh", "cosh", "tanh", "arcsin", "arccos",
   "arctan", "log", "ln", "exp", "det", "tr", "trace", "ker", "dim", "rank", "sgn"]

def fontCommands : List (List Char) := wordList
  ["mathbb", "mathbf", "mathcal", "mathrm", "mathit", "mathsf", "mathfrak", "boldsymbol",
   "text", "textbf", "textit", "operatorname"]

def symbolCommands : List (List Char) := wordList
  ["alpha", "beta", "gamma", "delta", "epsilon", "varepsilon", "zeta", "eta", "theta",
   "vartheta", "iota", "kappa", "lambda", "mu", "nu", "xi", "pi", "rho", "sigma", "tau",
   "upsilon", "phi", "varphi", "chi", "psi", "omega", "Gamma", "Delta", "Theta", "Lambda",
   "Xi", "Pi", "Sigma", "Phi", "Psi", "Omega", "partial", "nabla", "frac", "dfrac", "tfrac",
   "sqrt", "lim", "sum", "prod", "int", "iint", "oint", "infty", "cdot", "times", "pm"]

def romanNumerals : List (List Char) := wordList
  ["ii", "iii", "iv", "vi", "vii", "viii", "ix", "xi", "xii"]

def mathSigns : List Char :=
  "≤≥≠≈≡∼→←↔⇒⇔↦∑∏∫∮√∂∇∈∉∋⊂⊃⊆⊇∪∩∀∃∄∞±∓×÷·∘⊗⊕".toList

def isMathSign (char : Char) : Bool :=
  mathSigns.contains char

def isMathBracket (char : Char) : Bool :=
  char == '⟨' || char == '⟩' || char == '‖'

end DollarMath.Formula
