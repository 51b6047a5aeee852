import DollarMath.Region.Revision
import DollarMath.Text.Lines

/-!
A document as physical lines, each made of the parts of regions that fall on it.
-/

namespace DollarMath

structure Fragment where
  index : Nat
  span : Span
  kind : RegionKind
  text : List Char
deriving DecidableEq, Repr

structure Line where
  fragments : List Fragment
deriving DecidableEq, Repr

namespace Fragment

def ofLines (index : Nat) (kind : RegionKind) (offset : Nat) : List (List Char) → List Fragment
  | [] => []
  | line :: lines =>
    ⟨index, ⟨offset, offset + line.length⟩, kind, line⟩ ::
      ofLines index kind (offset + line.length) lines

def ofRegion (index : Nat) (region : Region) : List Fragment :=
  ofLines index region.kind 0 (Text.physicalLines region.text)

def ofRegions (index : Nat) : List Region → List Fragment
  | [] => []
  | region :: regions => ofRegion index region ++ ofRegions (index + 1) regions

def endsLine (fragment : Fragment) : Bool :=
  fragment.text.getLast? == some '\n'

def isVisible (fragment : Fragment) : Bool :=
  !Text.allBlank fragment.text

end Fragment

namespace Line

def consFragment (fragment : Fragment) : List Line → List Line
  | [] => [⟨[fragment]⟩]
  | line :: lines => ⟨fragment :: line.fragments⟩ :: lines

def group : List Fragment → List Line
  | [] => []
  | fragment :: rest =>
    if fragment.endsLine then ⟨[fragment]⟩ :: group rest
    else consFragment fragment (group rest)

def ofRegions (regions : List Region) : List Line :=
  group (Fragment.ofRegions 0 regions)

def text (line : Line) : List Char :=
  line.fragments.flatMap Fragment.text

def content (line : Line) : List Char :=
  Text.lineBody line.text

def isBlank (line : Line) : Bool :=
  Text.allBlank line.text

def isDisplay (line : Line) : Bool :=
  Text.strip line.content == ['$', '$'] || line.fragments.any (·.kind == .display)

def soleFragment? (kind : RegionKind) (line : Line) : Option Fragment :=
  match line.fragments with
  | [fragment] => if fragment.kind = kind then some fragment else none
  | _ => none

def firstVisible? (line : Line) : Option Fragment :=
  line.fragments.find? Fragment.isVisible

def lastVisible? (line : Line) : Option Fragment :=
  line.fragments.reverse.find? Fragment.isVisible

def isOutside (line : Line) : Bool :=
  line.fragments.all (·.kind == .outside)

def looseFragments (line : Line) : List Fragment :=
  line.fragments.filter (·.kind == .outside)

end Line

def countDollarsAfter (before : Option Char) : List Char → Nat
  | [] => 0
  | char :: rest =>
    (if char == '$' && before != some '\\' then 1 else 0) + countDollarsAfter (some char) rest

def countDollars (text : List Char) : Nat :=
  countDollarsAfter none text

def Line.dollarCount (line : Line) : Nat :=
  line.looseFragments.foldl (fun count fragment => count + countDollars fragment.text) 0

/-- A line whose text outside holds an odd number of unescaped dollars: one of them, a price as a
rule, has no partner and would pair with any dollar put next to it. -/
def Line.hasStrayDollar (line : Line) : Bool :=
  line.dollarCount % 2 == 1

def strayFragments (regions : List Region) : List Fragment :=
  ((Line.ofRegions regions).filter Line.hasStrayDollar).flatMap Line.looseFragments

def strayDollars (regions : List Region) : List (List Span) :=
  let stray := strayFragments regions
  (List.range regions.length).map fun index =>
    (stray.filter (·.index == index)).map Fragment.span

end DollarMath
