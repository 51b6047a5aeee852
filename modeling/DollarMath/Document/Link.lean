import DollarMath.Region.Revision
import DollarMath.Text.Lines

/-!
Links and addresses, which no conversion touches: lines that hold nothing but a link, and every
address inside a line.
-/

namespace DollarMath.Link

def isSchemeChar (char : Char) : Bool :=
  char.isAlphanum || char == '+' || char == '.' || char == '-'

def afterScheme? : List Char → Option (List Char)
  | [] => none
  | first :: rest =>
    if first.isAlpha then Text.afterWord? [':', '/', '/'] (rest.dropWhile isSchemeChar) else none

def isAddressChar (char : Char) : Bool :=
  !Text.isBlank char && char != ')'

def address : Text.Recognizer Unit :=
  fun _ text =>
    match afterScheme? text with
    | none => none
    | some rest =>
      let body := rest.takeWhile isAddressChar
      if body.isEmpty then none else some (text.length - rest.length + body.length, ())

def isAddress (text : List Char) : Bool :=
  match afterScheme? text with
  | none => false
  | some rest => !rest.isEmpty && rest.all fun char => !Text.isBlank char

def afterLabel? (text : List Char) : Option (List Char) :=
  (Text.splitAtFirst? [']', '('] text).map Prod.snd

def isMarkdownLink (text : List Char) : Bool :=
  let link := if text.head? == some '!' then text.tail else text
  link.head? == some '[' && link.getLast? == some ')' && (afterLabel? link.tail.dropLast).isSome

def startsWithGluedLink (text : List Char) : Bool :=
  match afterScheme? text with
  | none => false
  | some rest =>
    let ended := rest.dropWhile fun char => !Text.isBlank char && char != '['
    ended.length < rest.length && ended.head? == some '[' &&
      match afterLabel? ended.tail with
      | none => false
      | some target => target.contains ')'

def isBlob (text : List Char) : Bool :=
  !text.isEmpty && !text.contains '\n' &&
    (isAddress text || isMarkdownLink text || startsWithGluedLink text)

def freezeLine (line : List Char) : List Region :=
  let body := Text.lineBody line
  if isBlob (Text.strip body) then [Region.link body, Region.outside (Text.lineReturn line)]
  else marking address .link none line none

def freeze (regions : List Region) : List Region :=
  reviseOutside (fun _ text _ => (Text.lines text).flatMap freezeLine) regions

end DollarMath.Link
