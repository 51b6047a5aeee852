import DollarMath.Text.CodePoint

/-!
Text as bytes in UTF-8, and bytes as text: strictly, or leaving out what is malformed.
-/

namespace DollarMath

abbrev Bytes := List UInt8

namespace Utf8

def encode (text : List Char) : Bytes :=
  text.flatMap String.utf8EncodeChar

inductive Fault where
  | badStart
  | badContinuation
  | cutShort
deriving DecidableEq, Repr

structure DecodeError where
  start : Nat
  size : Nat
  first : UInt8
  fault : Fault
deriving DecidableEq, Repr

def Fault.message : Fault → String
  | badStart => "invalid start byte"
  | badContinuation => "invalid continuation byte"
  | cutShort => "unexpected end of data"

def hexByte (byte : UInt8) : String :=
  String.ofList (Text.hexDigits 2 byte.toNat)

def DecodeError.message (error : DecodeError) : String :=
  let place :=
    if error.size = 1 then s!"byte 0x{hexByte error.first} in position {error.start}"
    else s!"bytes in position {error.start}-{error.start + error.size - 1}"
  s!"'utf-8' codec can't decode {place}: {error.fault.message}"

def tailSize? (first : Nat) : Option Nat :=
  if first < 0x80 then some 0
  else if first < 0xC2 then none
  else if first < 0xE0 then some 1
  else if first < 0xF0 then some 2
  else if first < 0xF5 then some 3
  else none

/-- The bounds of the second byte, which keep out overlong forms, surrogates and codes that are too
large. -/
def secondBounds (first : Nat) : Nat × Nat :=
  if first = 0xE0 then (0xA0, 0xBF)
  else if first = 0xED then (0x80, 0x9F)
  else if first = 0xF0 then (0x90, 0xBF)
  else if first = 0xF4 then (0x80, 0x8F)
  else (0x80, 0xBF)

def leadBits (first : Nat) : Nat :=
  if first < 0x80 then first
  else if first < 0xE0 then first % 0x20
  else if first < 0xF0 then first % 0x10
  else first % 0x08

/-- The code of a character from the bits read so far and the bytes that follow, the next of them
within bounds; else the number of bytes that are no character, with their fault. -/
def readTail : (left : Nat) → (bounds : Nat × Nat) → (taken : Nat) → (code : Nat) → Bytes →
    Except (Nat × Fault) Nat
  | 0, _, _, code, _ => .ok code
  | _ + 1, _, taken, _, [] => .error (taken, .cutShort)
  | left + 1, bounds, taken, code, byte :: rest =>
    if bounds.1 ≤ byte.toNat && byte.toNat ≤ bounds.2 then
      readTail left (0x80, 0xBF) (taken + 1) (code * 0x40 + byte.toNat % 0x40) rest
    else .error (taken, .badContinuation)

def readChar (first : UInt8) (rest : Bytes) : Except (Nat × Fault) (Char × Nat) :=
  match tailSize? first.toNat with
  | none => .error (1, .badStart)
  | some size =>
    (readTail size (secondBounds first.toNat) 1 (leadBits first.toNat) rest).map fun code =>
      (Char.ofNat code, size)

def parts (offset : Nat) : Bytes → List (Except DecodeError Char)
  | [] => []
  | first :: rest =>
    match readChar first rest with
    | .ok (char, size) => .ok char :: parts (offset + 1 + size) (rest.drop size)
    | .error (size, fault) =>
      .error ⟨offset, size, first, fault⟩ :: parts (offset + size) (rest.drop (size - 1))
termination_by bytes => bytes.length
decreasing_by
  all_goals simp only [List.length_drop, List.length_cons]
  all_goals omega

def decode (bytes : Bytes) : Except DecodeError (List Char) :=
  (parts 0 bytes).mapM id

def decodeLossy (bytes : Bytes) : List Char :=
  (parts 0 bytes).filterMap Except.toOption

end Utf8

end DollarMath
