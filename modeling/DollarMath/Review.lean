import DollarMath.Document.DisplayMath
import DollarMath.Document.Fence
import DollarMath.Document.Link
import DollarMath.Document.Segmentation
import DollarMath.Region.Line
import DollarMath.Text.CodePoint

/-!
The review of a converted document: fenced code and addresses must have come through, delimiter
lines must pair up, and dollars should.
-/

namespace DollarMath

inductive Finding where
  | missingBlocks (source converted : Nat)
  | changedBlock (number : Nat) (firstLine : List Char)
  | missingAddresses (addresses : List (List Char))
  | unpairedDelimiter (line : Nat)
  | oddDollars (line : Nat)
deriving DecidableEq, Repr

namespace Finding

def isWarning : Finding → Bool
  | oddDollars _ => true
  | _ => false

def line? : Finding → Option Nat
  | oddDollars line => some line
  | _ => none

def message : Finding → String
  | missingBlocks source converted =>
    s!"Missing code blocks: Original {source}, Converted {converted}"
  | changedBlock number firstLine =>
    s!"Code block {number} changed ({String.ofList firstLine})"
  | missingAddresses addresses =>
    "Missing URLs: " ++ String.intercalate ", " (addresses.map String.ofList)
  | unpairedDelimiter line => s!"Unpaired '$$' delimiter line (last one at line {line})"
  | oddDollars line => s!"Odd number of '$' on line {line}"

end Finding

namespace Review

def codeBlocks (text : List Char) : List (List Char) :=
  ((Fence.split text).filter (·.kind == .code)).map Piece.text

def prose (text : List Char) : List (Nat × List Char) :=
  ((Fence.locate text).filter (·.kind == .prose)).map fun segment =>
    ((text.take segment.span.start).count '\n' + 1, segment.text)

def numbered (first : Nat) : List (List Char) → List (Nat × List Char)
  | [] => []
  | line :: lines => (first, line) :: numbered (first + 1) lines

def proseLines (text : List Char) : List (Nat × List Char) :=
  (prose text).flatMap fun part => numbered part.1 (Text.splitFeeds part.2)

def changedBlocks (number : Nat) : List (List Char) → List (List Char) → List Finding
  | before :: source, after :: converted =>
    let rest := changedBlocks (number + 1) source converted
    if before = after then rest
    else .changedBlock number (Text.strip (before.takeWhile (· != '\n'))) :: rest
  | _, _ => []

def checkCode (source converted : List Char) : List Finding :=
  let before := codeBlocks source
  let after := codeBlocks converted
  let missing :=
    if after.length < before.length then [Finding.missingBlocks before.length after.length] else []
  missing ++ changedBlocks 1 before after

/-- The addresses of the source that the converted text lacks, each once and in order. -/
def missingAddresses (source converted : List Char) : List (List Char) :=
  let kept := Text.findAll Link.address converted
  Text.sort (((Text.findAll Link.address source).filter (!kept.contains ·)).eraseDups)

def checkAddresses (source converted : List Char) : List Finding :=
  match missingAddresses source converted with
  | [] => []
  | missing => [.missingAddresses missing]

def checkDelimiters (converted : List Char) : List Finding :=
  let found := (proseLines converted).filter fun line => DisplayMath.isDelimiterLine line.2
  match found.getLast? with
  | some last => if found.length % 2 = 1 then [.unpairedDelimiter last.1] else []
  | none => []

def blankSpans (spans : List Span) (offset : Nat) : List Char → List Char
  | [] => []
  | char :: rest =>
    (if char != '\n' && spans.any (·.contains offset) then ' ' else char) ::
      blankSpans spans (offset + 1) rest

def blankCode (text : List Char) : List Char :=
  (Text.scan InlineCode.span none text).flatMap fun
    | .gap char => [char]
    | .hit _ taken _ _ => List.replicate taken.length ' '

def checkDollars (converted : List Char) : List Finding :=
  (prose converted).flatMap fun part =>
    let visible := blankCode (blankSpans (DisplayMath.spans part.2) 0 part.2)
    (numbered part.1 (Text.splitFeeds visible)).filterMap fun line =>
      if countDollars line.2 % 2 = 1 then some (.oddDollars line.1) else none

def findings (source converted : List Char) : List Finding :=
  checkCode source converted ++ checkAddresses source converted ++
    checkDelimiters converted ++ checkDollars converted

def isValid (found : List Finding) : Bool :=
  found.all Finding.isWarning

end Review

end DollarMath
