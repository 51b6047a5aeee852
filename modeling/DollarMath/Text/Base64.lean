import DollarMath.Text.Utf8

/-!
Bytes written as text, six bits a character.
-/

namespace DollarMath.Text

def sextet? (char : Char) : Option Nat :=
  let code := char.toNat
  if 'A' ≤ char && char ≤ 'Z' then some (code - 'A'.toNat)
  else if 'a' ≤ char && char ≤ 'z' then some (code - 'a'.toNat + 26)
  else if char.isDigit then some (code - '0'.toNat + 52)
  else if char = '+' then some 62
  else if char = '/' then some 63
  else none

/-- The bytes that the rest of a text spells, given how many characters of a group of four were
read, the bits of them that are left, and how many signs of padding came after them. Padding that
fills a group ends the text, other characters are passed over, and a group that is begun must be
filled. -/
def bytesAfter? (place bits padding : Nat) : List Char → Option Bytes
  | [] => if place = 0 then some [] else none
  | char :: rest =>
    if char = '=' then
      if 2 ≤ place && 4 ≤ place + padding + 1 then some []
      else bytesAfter? place bits (if 2 ≤ place then padding + 1 else padding) rest
    else
      match sextet? char with
      | none => bytesAfter? place bits padding rest
      | some value =>
        let joined := bits * 64 + value
        if place = 0 then bytesAfter? 1 value 0 rest
        else if place = 1 then
          (bytesAfter? 2 (joined % 16) 0 rest).map ((joined / 16).toUInt8 :: ·)
        else if place = 2 then
          (bytesAfter? 3 (joined % 4) 0 rest).map ((joined / 4).toUInt8 :: ·)
        else (bytesAfter? 0 0 0 rest).map (joined.toUInt8 :: ·)

def bytesOfBase64? (text : List Char) : Option Bytes :=
  bytesAfter? 0 0 0 text

def sextetChar (value : Nat) : Char :=
  if value < 26 then Char.ofNat ('A'.toNat + value)
  else if value < 52 then Char.ofNat ('a'.toNat + value - 26)
  else if value < 62 then Char.ofNat ('0'.toNat + value - 52)
  else if value = 62 then '+' else '/'

def base64 : Bytes → List Char
  | [] => []
  | [first] =>
    let bits := first.toNat * 16
    [sextetChar (bits / 64), sextetChar (bits % 64), '=', '=']
  | [first, second] =>
    let bits := (first.toNat * 256 + second.toNat) * 4
    [sextetChar (bits / 4096), sextetChar (bits / 64 % 64), sextetChar (bits % 64), '=']
  | first :: second :: third :: rest =>
    let bits := (first.toNat * 256 + second.toNat) * 256 + third.toNat
    sextetChar (bits / 262144) :: sextetChar (bits / 4096 % 64) :: sextetChar (bits / 64 % 64) ::
      sextetChar (bits % 64) :: base64 rest

end DollarMath.Text
