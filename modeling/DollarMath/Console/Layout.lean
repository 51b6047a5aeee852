import DollarMath.Console.Width
import DollarMath.Text.Blank
import DollarMath.Text.Lines

/-!
Text laid out in the columns of a terminal: tabs are filled up, words that no longer fit go to the
next line, and a word that fits on no line is cut. The program prints with a library, whose
documented layout this is.
-/

namespace DollarMath.Console

def tabSize : Nat := 8

/-- The parts of a line between its tabs, a tab shown as one blank or more up to the next column for
tabs. The first part starts at the given column. -/
def fillTabs (column : Nat) : List (List Char) → List Char
  | [] => []
  | [part] => part
  | part :: parts =>
    let begun := part ++ [' ']
    let reached := column + width begun
    let size := (tabSize - reached % tabSize) % tabSize
    begun ++ List.replicate size ' ' ++ fillTabs (reached + size) parts

def expandTabs (line : List Char) : List Char :=
  fillTabs 0 (Text.splitAt '\t' line)

structure Cluster where
  text : List Char
  width : Nat
deriving DecidableEq, Repr

namespace Cluster

def extend (cluster : Cluster) (text : List Char) (width : Nat) : Cluster :=
  ⟨cluster.text ++ text, cluster.width + width⟩

/-- The clusters of the text after a cluster whose last shown character is known. -/
def after (cluster : Cluster) (shown : Option Char) : List Char → List Cluster
  | [] => [cluster]
  | char :: rest =>
    if char = joiner then
      match rest with
      | [] => [cluster.extend [char] 0]
      | next :: later => (cluster.extend [char, next] 0).after shown later
    else if char = emojiMark then
      let wider := widening shown
      (cluster.extend [char] wider).after (if wider = 0 then shown else none) rest
    else if charWidth char = 0 then (cluster.extend [char] 0).after shown rest
    else cluster :: after ⟨[char], charWidth char⟩ (some char) rest

def ofText : List Char → List Cluster
  | [] => []
  | char :: rest =>
    let columns := if char = joiner || char = emojiMark then 0 else charWidth char
    after ⟨[char], columns⟩ (if columns = 0 then none else some char) rest

end Cluster

def foldClusters (columns : Nat) (line : List Char) (used : Nat) :
    List Cluster → List (List Char)
  | [] => [line]
  | cluster :: rest =>
    if used + cluster.width ≤ columns then
      foldClusters columns (line ++ cluster.text) (used + cluster.width) rest
    else line :: foldClusters columns cluster.text cluster.width rest

def fold (columns : Nat) (text : List Char) : List (List Char) :=
  foldClusters columns [] 0 (Cluster.ofText text)

/-- The clusters that fit into the columns. Where one of two columns is left over, a blank fills
it. -/
def cropClusters (columns : Nat) : List Cluster → List Char
  | [] => []
  | cluster :: rest =>
    if cluster.width ≤ columns then cluster.text ++ cropClusters (columns - cluster.width) rest
    else List.replicate columns ' '

def crop (columns : Nat) (text : List Char) : List Char :=
  if width text ≤ columns then text else cropClusters columns (Cluster.ofText text)

def endsWord (char : Char) (after : List Char) : Bool :=
  Text.isBlank char && after.head?.any fun next => !Text.isBlank next

def cutWords : List Char → List (List Char)
  | [] => []
  | char :: rest =>
    if endsWord char rest then [char] :: cutWords rest
    else Text.consLine char (cutWords rest)

def spacedWords (text : List Char) : List (List Char) :=
  match cutWords text with
  | first :: second :: rest =>
    if Text.allBlank first then (first ++ second) :: rest else first :: second :: rest
  | words => words

/-- Put words into lines, given the line begun and the columns it takes. Blanks at the end of a
line may go beyond the columns. -/
def wrapWords (columns : Nat) (line : List Char) (used : Nat) :
    List (List Char) → List (List Char)
  | [] => [line]
  | word :: rest =>
    let needed := width (Text.stripRight word)
    if used + needed ≤ columns then
      wrapWords columns (line ++ word) (used + width word) rest
    else if needed ≤ columns then line :: wrapWords columns word (width word) rest
    else
      let pieces := fold columns word
      let last := pieces.getLastD []
      (if line.isEmpty then [] else [line]) ++ pieces.dropLast ++
        wrapWords columns last (width last) rest

def trimEnd (columns : Nat) (line : List Char) : List Char :=
  let blanks := line.length - (Text.stripRight line).length
  line.take (line.length - min blanks (line.length - columns))

def layOut (columns : Nat) (text : List Char) : List (List Char) :=
  (Text.splitFeeds text).flatMap fun line =>
    (wrapWords columns [] 0 (spacedWords (expandTabs line))).map fun wrapped =>
      crop columns (trimEnd columns wrapped)

end DollarMath.Console
