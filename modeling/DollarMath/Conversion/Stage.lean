import DollarMath.Conversion.BareTokens
import DollarMath.Conversion.BlankLines
import DollarMath.Conversion.Delimiters
import DollarMath.Conversion.Environments
import DollarMath.Conversion.FormulaLines
import DollarMath.Conversion.Options
import DollarMath.Conversion.PlainBrackets
import DollarMath.Document.Segmentation

/-!
The conversion of a document: its regions go through the enabled stages in a fixed order.
-/

namespace DollarMath

inductive Stage where
  | delimiters
  | environments
  | formulaLines
  | squares
  | parens
  | bareTokens
  | blankLines
deriving DecidableEq, Repr

namespace Stage

def all : List Stage :=
  [delimiters, environments, formulaLines, squares, parens, bareTokens, blankLines]

def isEnabled (options : Options) : Stage → Bool
  | delimiters => true
  | environments => options.environments
  | formulaLines => options.formulaLines
  | squares => options.squares
  | parens => options.parens
  | bareTokens => options.bareTokens
  | blankLines => true

def run : Stage → List Region → List Region
  | delimiters => Delimiters.normalize
  | environments => Environments.wrap
  | formulaLines => FormulaLines.promote
  | squares => PlainBrackets.convert PlainBrackets.squares
  | parens => PlainBrackets.convert PlainBrackets.parens
  | bareTokens => BareTokens.wrap
  | blankLines => BlankLines.normalize

def enabled (options : Options) : List Stage :=
  all.filter (isEnabled options)

def trace : List Stage → List Region → List (Stage × List Region)
  | [], _ => []
  | stage :: stages, regions =>
    let after := stage.run regions
    (stage, after) :: trace stages after

end Stage

def convertedRegions (options : Options) (text : List Char) : List Region :=
  (Stage.enabled options).foldl (fun regions stage => stage.run regions) (Document.regions text)

def convert (options : Options) (text : List Char) : List Char :=
  Piece.join (convertedRegions options text)

end DollarMath
