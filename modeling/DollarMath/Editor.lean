import DollarMath.Conversion.Stage

/-!
A text being edited, with a selection, and what conversion does to it.
-/

namespace DollarMath

/-- A text with the two ends of its selection. The ends are kept as they were set: a negative one
counts from the end of the text, and one beyond the text stands for its end. -/
structure Buffer where
  text : List Char
  selectionStart : Int
  selectionEnd : Int
deriving DecidableEq, Repr

namespace Buffer

def ofText (text : List Char) (start stop : Option Int := none) : Buffer :=
  let first := start.getD text.length
  ⟨text, first, stop.getD first⟩

def offset (length : Nat) (place : Int) : Nat :=
  min (if place < 0 then (length + place).toNat else place.toNat) length

def setText (_ : Buffer) (text : List Char) : Buffer :=
  ⟨text, text.length, text.length⟩

def replaceSelection (buffer : Buffer) (inserted : List Char) : Buffer :=
  let length := buffer.text.length
  let before := buffer.text.take (offset length buffer.selectionStart)
  let after := buffer.text.drop (offset length buffer.selectionEnd)
  let stop := buffer.selectionStart + inserted.length
  ⟨before ++ inserted ++ after, stop, stop⟩

/-- Whether a pasted text is to be converted: not if conversion is off, and never if there is
nothing in it but a link. -/
def convertsPaste (options : Options) (pasted : List Char) : Bool :=
  options.pasteConversion && !pasted.isEmpty && !Link.isBlob (Text.strip pasted)

def pasteConverted (buffer : Buffer) (options : Options) (pasted : List Char) : Buffer :=
  buffer.replaceSelection (convert options pasted)

/-- Insert a pasted text if it is to be converted. Otherwise nothing is inserted, and pasting is
left to the editor. -/
def paste (buffer : Buffer) (options : Options) (pasted : List Char) : Bool × Buffer :=
  if convertsPaste options pasted then (true, buffer.pasteConverted options pasted)
  else (false, buffer)

def convertAll (buffer : Buffer) (options : Options) : Bool × Buffer :=
  let converted := convert options buffer.text
  if converted = buffer.text then (false, buffer) else (true, buffer.setText converted)

end Buffer

end DollarMath
