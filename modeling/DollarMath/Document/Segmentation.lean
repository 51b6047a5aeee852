import DollarMath.Document.DisplayMath
import DollarMath.Document.Fence
import DollarMath.Document.Link
import DollarMath.Region.Revision
import DollarMath.Text.Word

/-!
Code and math inside a line, and the regions of a document: what is frozen, and the text outside that
may be revised.
-/

namespace DollarMath

namespace InlineCode

def span : Text.Recognizer Unit
  | _, '\x60' :: rest =>
    let body := rest.takeWhile fun char => char != '\x60' && !Text.isReturn char
    if !body.isEmpty && (rest.drop body.length).head? == some '\x60' then some (body.length + 2, ())
    else none
  | _, _ => none

def split (regions : List Region) : List Region :=
  reviseOutside (marking span .code) regions

end InlineCode

namespace InlineMath

/-- A dollar that no backslash or dollar precedes, a body on the line without dollars that neither
starts nor ends with a blank nor ends with a backslash, and a dollar that neither a dollar nor a
digit follows. -/
def span : Text.Recognizer Unit
  | before, '$' :: rest =>
    if before == some '\\' || before == some '$' then none
    else
      let body := rest.takeWhile fun char => char != '$' && char != '\n'
      let tight := !body.head?.any Text.isBlank &&
        body.getLast?.any fun char => !Text.isBlank char && char != '\\'
      match rest.drop body.length with
      | '$' :: after =>
        if tight && !after.head?.any fun char => char == '$' || Text.isDecimal char then
          some (body.length + 2, ())
        else none
      | _ => none
  | _, _ => none

def split (regions : List Region) : List Region :=
  reviseOutside (marking span .inline) regions

end InlineMath

namespace Document

/-- The regions of prose: frozen whole if it is only a link, else cut at inline code, links,
display math and inline math in turn. -/
def proseRegions (text : List Char) : List Region :=
  if Link.isBlob (Text.strip text) then [Region.link text]
  else
    InlineMath.split (DisplayMath.split (Link.freeze (InlineCode.split [Region.outside text])))

def segmentRegions (segment : Segment) : List Region :=
  match segment.kind with
  | .code => [Region.code segment.text]
  | .prose => proseRegions segment.text

def regions (text : List Char) : List Region :=
  Piece.fuse ((Fence.split text).flatMap segmentRegions)

end Document

end DollarMath
