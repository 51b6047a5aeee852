import DollarMath.Formula.Vocabulary
import DollarMath.Text.Blank
import DollarMath.Text.Scan
import DollarMath.Text.Word

/-!
Rules by which a short text reads as LaTeX. The first rule that holds names the reason.
-/

namespace DollarMath.Formula

def letterRun (text : List Char) : List Char :=
  text.takeWhile Char.isAlpha

def followsLetter (before : Option Char) : Bool :=
  before.any Char.isAlpha

def startsWithDigitOrLetter (text : List Char) : Bool :=
  text.head?.any Char.isAlphanum

def startsEnvironment (text : List Char) : Bool :=
  match Text.afterWord? ['\\', 'b', 'e', 'g', 'i', 'n', '{'] text with
  | none => false
  | some rest =>
    let name := rest.takeWhile fun char => char.isAlpha || char == '*'
    !name.isEmpty && (rest.drop name.length).head? == some '}'

def startsFontCommand : List Char → Bool
  | '\\' :: rest =>
    fontCommands.any fun name =>
      (Text.afterWord? name rest).any fun after => (after.dropWhile Text.isBlank).head? == some '{'
  | _ => false

def startsSymbolCommand : List Char → Bool
  | '\\' :: rest => symbolCommands.contains (letterRun rest)
  | _ => false

def startsCommand : List Char → Bool
  | '\\' :: first :: _ => first.isAlpha
  | _ => false

def startsScript : List Char → Bool
  | base :: mark :: rest =>
    let script := if rest.head? == some '{' then rest.tail else rest
    (base.isAlphanum || base == ')' || base == ']' || base == '}') &&
      (mark == '_' || mark == '^') &&
      script.head?.any fun char => char.isAlphanum || char == '\\'
  | _ => false

def isOperator (char : Char) : Bool :=
  char == '=' || char == '_' || char == '^'

def isArithmeticSign (char : Char) : Bool :=
  char == '+' || char == '-' || char == '*' || char == '/'

def isOpening (char : Char) : Bool :=
  char == '(' || char == '[' || char == '{'

def isClosing (char : Char) : Bool :=
  char == ')' || char == ']' || char == '}'

/-- What an arithmetic sign may follow: a lone letter's end, a digit or a closing bracket. -/
def endsOperand (before : Option Char) (char : Char) : Bool :=
  (char.isAlpha && !followsLetter before) || Text.isDecimal char || isClosing char

def startsOperand : List Char → Bool
  | [] => false
  | char :: rest =>
    (char.isAlpha && !rest.head?.any Char.isAlpha) || Text.isDecimal char || isOpening char ||
      char == '\\'

/-- An arithmetic sign between short operands, such as `x + y`; words joined by a hyphen are not. -/
def startsArithmetic (before : Option Char) : List Char → Bool
  | [] => false
  | char :: rest =>
    endsOperand before char &&
      match rest.dropWhile Text.isBlank with
      | sign :: after => isArithmeticSign sign && startsOperand (after.dropWhile Text.isBlank)
      | [] => false

def startsFunctionName (before : Option Char) (text : List Char) : Bool :=
  !followsLetter before && before != some '\\' && functionNames.contains (letterRun text)

def startsFunctionCall (before : Option Char) : List Char → Bool
  | name :: '(' :: rest =>
    name.isAlpha && !followsLetter before &&
      startsWithDigitOrLetter (rest.dropWhile Text.isBlank)
  | _ => false

def afterNumber? (text : List Char) : Option (List Char) :=
  let rest := text.dropWhile Text.isDecimal
  if rest.length = text.length then none
  else
    match rest with
    | '.' :: fraction =>
      if fraction.head?.any Text.isDecimal then some (fraction.dropWhile Text.isDecimal)
      else some rest
    | _ => some rest

def afterBound? (text : List Char) : Option (List Char) :=
  let start := text.dropWhile Text.isBlank
  let body := if start.head? == some '-' || start.head? == some '+' then start.tail else start
  let rest :=
    match afterNumber? body with
    | some rest => some rest
    | none =>
      match body with
      | '∞' :: rest => some rest
      | char :: rest =>
        if char.isAlpha then some rest
        else Text.afterWord? ['\\', 'i', 'n', 'f', 't', 'y'] body
      | [] => none
  rest.map (·.dropWhile Text.isBlank)

def isInterval (text : List Char) : Bool :=
  match afterBound? text with
  | some (',' :: rest) => afterBound? rest == some []
  | _ => false

inductive Rule where
  | environment
  | fontMacro
  | namedMacro
  | command
  | script
  | operator
  | arithmetic
  | unicodeBracket
  | unicodeSymbol
  | functionName
  | interval
  | functionCall
deriving DecidableEq, Repr

namespace Rule

def all : List Rule :=
  [environment, fontMacro, namedMacro, command, script, operator, arithmetic, unicodeBracket,
    unicodeSymbol, functionName, interval, functionCall]

def name : Rule → String
  | environment => "environment"
  | fontMacro => "font_macro"
  | namedMacro => "named_macro"
  | command => "command"
  | script => "script"
  | operator => "operator"
  | arithmetic => "arithmetic"
  | unicodeBracket => "unicode_bracket"
  | unicodeSymbol => "unicode_symbol"
  | functionName => "function_name"
  | interval => "interval"
  | functionCall => "function_call"

def holds (rule : Rule) (text : List Char) : Bool :=
  match rule with
  | environment => Text.anywhere (fun _ => startsEnvironment) none text
  | fontMacro => Text.anywhere (fun _ => startsFontCommand) none text
  | namedMacro => Text.anywhere (fun _ => startsSymbolCommand) none text
  | command => Text.anywhere (fun _ => startsCommand) none text
  | script => Text.anywhere (fun _ => startsScript) none text
  | operator => text.any isOperator
  | arithmetic => Text.anywhere startsArithmetic none text
  | unicodeBracket => text.any isMathBracket
  | unicodeSymbol => text.any isMathSign
  | functionName => Text.anywhere startsFunctionName none text
  | interval => isInterval text
  | functionCall => Text.anywhere startsFunctionCall none text

def first? (text : List Char) : Option Rule :=
  all.find? (·.holds text)

end Rule

def readsAsLatex (text : List Char) : Bool :=
  (Rule.first? text).isSome

end DollarMath.Formula
