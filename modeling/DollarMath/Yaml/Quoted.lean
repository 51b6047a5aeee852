import DollarMath.Text.CodePoint
import DollarMath.Yaml.Plain

/-!
Quoted scalars. Blanks around a line break are dropped and the break is folded. This follows the
published rules of YAML 1.1, as all of the reader, which the program has from a library.
-/

namespace DollarMath.Yaml

def escaped? : Char → Option Char
  | '0' => some '\x00'
  | 'a' => some '\x07'
  | 'b' => some '\x08'
  | 't' => some '\t'
  | '\t' => some '\t'
  | 'n' => some '\n'
  | 'v' => some '\x0b'
  | 'f' => some '\x0c'
  | 'r' => some '\r'
  | 'e' => some '\x1b'
  | ' ' => some ' '
  | '"' => some '"'
  | '/' => some '/'
  | '\\' => some '\\'
  | 'N' => some (Char.ofNat 0x85)
  | '_' => some (Char.ofNat 0xA0)
  | 'L' => some (Char.ofNat 0x2028)
  | 'P' => some (Char.ofNat 0x2029)
  | _ => none

def codeWidth? : Char → Option Nat
  | 'x' => some 2
  | 'u' => some 4
  | 'U' => some 8
  | _ => none

def hexValue (digits : List Char) : Nat :=
  Numeral.natOfDigits 16 (digits.filterMap (Numeral.digit? 16))

def escape : List Char → Read (Nat × List Char)
  | [] => .error .token
  | char :: rest =>
    match escaped? char with
    | some value => .ok (value.toNat, rest)
    | none =>
      match codeWidth? char with
      | none => .error .token
      | some width =>
        let digits := rest.take width
        if digits.length = width && digits.all Text.isHex then
          let code := hexValue digits
          if code < 0x110000 then .ok (code, rest.drop width)
          else .error (.valueless (.notChar code))
        else .error .token

/-- The line breaks at the head of a text that starts a line, blank lines among them, with what
follows the blanks after them. No document may start or end there. -/
def quotedBreaks : (fuel : Nat) → List Char → Read (List Char × List Char)
  | 0, text => .ok ([], text)
  | fuel + 1, text =>
    if isSeparator text then .error .token
    else
      match text.dropWhile fun char => char == ' ' || char == '\t' with
      | [] => .ok ([], [])
      | char :: rest =>
        if isBreak char then
          (quotedBreaks fuel rest).map fun parts => (breakOf char :: parts.1, parts.2)
        else .ok ([], char :: rest)

def quotedSpace (text : List Char) : Read (List Char × List Char) :=
  let blanks := text.takeWhile fun char => char == ' ' || char == '\t'
  match text.drop blanks.length with
  | [] => .error .token
  | char :: rest =>
    if isBreak char then
      (quotedBreaks rest.length rest).map fun parts => (folded (breakOf char :: parts.1), parts.2)
    else .ok (blanks, char :: rest)

def codes (text : List Char) : List Nat :=
  text.map Char.toNat

def quoted (quote : Char) : (fuel : Nat) → List Char → Read (List Nat × List Char)
  | 0, _ => .error .token
  | _, [] => .error .token
  | fuel + 1, char :: rest =>
    let continued (value : List Nat) (left : List Char) : Read (List Nat × List Char) :=
      (quoted quote fuel left).map fun parts => (value ++ parts.1, parts.2)
    if endsToken [char] then
      (quotedSpace (char :: rest)).bind fun parts => continued (codes parts.1) parts.2
    else if char = quote then
      if quote = '\'' && rest.head? == some '\'' then continued [quote.toNat] rest.tail
      else .ok ([], rest)
    else if char = '\\' && quote = '"' then
      if rest.head?.any isBreak then
        (quotedBreaks rest.length rest.tail).bind fun parts => continued (codes parts.1) parts.2
      else (escape rest).bind fun parts => continued [parts.1] parts.2
    else continued [char.toNat] rest

def isHighHalf (code : Nat) : Bool :=
  0xD800 ≤ code && code < 0xDC00

def isLowHalf (code : Nat) : Bool :=
  0xDC00 ≤ code && code < 0xE000

/-- The characters with the given codes, two halves of a pair put together, and a half that is alone
replaced. -/
def joinHalves : List Nat → List Char
  | [] => []
  | [code] => [if isHighHalf code || isLowHalf code then Char.ofNat 0xFFFD else Char.ofNat code]
  | high :: low :: rest =>
    if isHighHalf high && isLowHalf low then
      Char.ofNat (0x10000 + (high - 0xD800) * 0x400 + (low - 0xDC00)) :: joinHalves rest
    else if isHighHalf high || isLowHalf high then Char.ofNat 0xFFFD :: joinHalves (low :: rest)
    else Char.ofNat high :: joinHalves (low :: rest)

structure ScalarText where
  chars : List Char
  malformed : Bool
deriving DecidableEq, Repr

def ScalarText.ofCodes (codes : List Nat) : ScalarText :=
  ⟨joinHalves codes, codes.any fun code => isHighHalf code || isLowHalf code⟩

def quotedScalar (quote : Char) (cursor : Cursor) : Read (ScalarText × Cursor) :=
  let body := cursor.rest.tail
  (quoted quote (body.length + 1) body).map fun parts =>
    (.ofCodes parts.1, cursor.moveTo parts.2)

end DollarMath.Yaml
