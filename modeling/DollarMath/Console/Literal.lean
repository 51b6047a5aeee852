import DollarMath.Text.CodePoint
import DollarMath.Text.Lines
import DollarMath.Text.Word

/-!
Literal values as the arguments of an action write them: numbers, texts, bytes, and tuples, sets and
tables of such values. What counts is whether a text is such a value, not which one. The library
that the program prints with reads such arguments, by rules that are published with its language.
-/

namespace DollarMath.Console.Literal

/-- What must be known of a value to tell where it may stand: a number may take a sign, an imaginary
one may follow a sum's sign, texts and bytes stand side by side with their own kind, and what can be
changed is neither member of a set nor key of a table. -/
inductive Kind where
  | real
  | signed
  | imaginary
  | text
  | bytes
  | fixed
  | changeable
deriving DecidableEq, Repr

abbrev Reading := Option (Kind × List Char)

def isSpace (char : Char) : Bool :=
  char == ' ' || char == '\t' || char == '\x0c'

def skipFrom (inside comment : Bool) : List Char → List Char
  | [] => []
  | char :: rest =>
    if char = '\n' then if inside then skipFrom inside false rest else char :: rest
    else if comment || isSpace char then skipFrom inside comment rest
    else if char = '#' && inside then skipFrom inside true rest
    else
      match char, rest with
      | '\\', '\n' :: later => skipFrom inside false later
      | _, _ => char :: rest

def skip (inside : Bool) (text : List Char) : List Char :=
  skipFrom inside false text

/-! ### Numbers -/

def digitsAfter (isDigit : Char → Bool) : List Char → List Char × List Char
  | '_' :: char :: rest =>
    if isDigit char then
      let (digits, left) := digitsAfter isDigit rest
      (char :: digits, left)
    else ([], '_' :: char :: rest)
  | char :: rest =>
    if isDigit char then
      let (digits, left) := digitsAfter isDigit rest
      (char :: digits, left)
    else ([], char :: rest)
  | [] => ([], [])

def digits (text : List Char) : List Char × List Char :=
  if text.head?.any Char.isDigit then digitsAfter Char.isDigit text else ([], text)

def baseDigit? (mark : Char) : Option (Char → Bool) :=
  match mark.toLower with
  | 'x' => some Text.isHex
  | 'o' => some fun char => '0' ≤ char && char ≤ '7'
  | 'b' => some fun char => char == '0' || char == '1'
  | _ => none

def afterExponent? : List Char → Option (List Char)
  | mark :: rest =>
    let unsigned := if rest.head? = some '+' || rest.head? = some '-' then rest.drop 1 else rest
    if mark.toLower = 'e' && unsigned.head?.any Char.isDigit then some (digits unsigned).2
    else none
  | [] => none

def ended (kind : Kind) (rest : List Char) : Reading :=
  if rest.head?.any Text.isWord then none else some (kind, rest)

/-- A number in base ten. Only zero itself may start with more than one zero, if it is whole. -/
def decimal? (text : List Char) : Reading :=
  let (whole, afterWhole) := digits text
  let isPointed := afterWhole.head? = some '.'
  let (fraction, afterFraction) :=
    if isPointed then digits (afterWhole.drop 1) else ([], afterWhole)
  let exponent? := afterExponent? afterFraction
  let rest := exponent?.getD afterFraction
  if whole.isEmpty && fraction.isEmpty then none
  else if rest.head?.any fun char => char.toLower == 'j' then ended .imaginary (rest.drop 1)
  else if !isPointed && exponent?.isNone && whole.head? = some '0' && whole.any (· != '0') then none
  else ended .real rest

def number? (text : List Char) : Reading :=
  match text with
  | '0' :: mark :: rest =>
    match baseDigit? mark with
    | some isDigit =>
      let (found, left) := digitsAfter isDigit rest
      if found.isEmpty then none else ended .real left
    | none => decimal? text
  | _ => decimal? text

/-! ### Texts -/

structure Quoting where
  quote : Char
  isLong : Bool
  isRaw : Bool
  isBytes : Bool

def Quoting.isEscape (quoting : Quoting) (mark : Char) (rest : List Char) : Bool :=
  let isHexOf (size : Nat) : Bool :=
    (rest.take size).length == size && (rest.take size).all Text.isHex
  if quoting.isRaw then true
  else if mark = 'x' then isHexOf 2
  else if quoting.isBytes then true
  else if mark = 'u' then isHexOf 4
  else if mark = 'U' then
    isHexOf 8 && ["000", "0010"].any fun start => start.toList.isPrefixOf rest
  else mark != 'N'

def Quoting.afterBody? (quoting : Quoting) : List Char → Option (List Char)
  | [] => none
  | char :: rest =>
    if quoting.isBytes && 128 ≤ char.toNat then none
    else if char = quoting.quote then
      if !quoting.isLong then some rest
      else
        match rest with
        | second :: third :: later =>
          if second = quoting.quote && third = quoting.quote then some later
          else quoting.afterBody? (second :: third :: later)
        | _ => none
    else if char = '\\' then
      match rest with
      | [] => none
      | mark :: later =>
        if quoting.isEscape mark later && (!quoting.isBytes || mark.toNat < 128) then
          quoting.afterBody? later
        else none
    else if char = '\n' && !quoting.isLong then none
    else quoting.afterBody? rest

def marks : List String :=
  ["", "u", "r", "b", "br", "rb"]

def opening? (text : List Char) : Option (Quoting × List Char) :=
  let letters := (text.takeWhile Char.isAlpha).map Char.toLower
  match text.drop letters.length with
  | quote :: rest =>
    if (quote = '\'' || quote = '"') && marks.contains (String.ofList letters) then
      let isLong := [quote, quote].isPrefixOf rest
      some (⟨quote, isLong, letters.contains 'r', letters.contains 'b'⟩,
        if isLong then rest.drop 2 else rest)
    else none
  | [] => none

def texts? (inside : Bool) : (fuel : Nat) → List Char → Reading
  | 0, _ => none
  | fuel + 1, text => do
    let (quoting, body) ← opening? text
    let rest ← quoting.afterBody? body
    let kind := if quoting.isBytes then Kind.bytes else Kind.text
    if (opening? (skip inside rest)).isSome then
      let (next, left) ← texts? inside fuel (skip inside rest)
      if next = kind then some (kind, left) else none
    else some (kind, rest)

/-! ### Values -/

def names : List String :=
  ["True", "False", "None"]

def isName (word : List Char) : Bool :=
  names.contains (String.ofList word)

def afterBrackets? (inside : Bool) (text : List Char) : Option (List Char) :=
  match skip inside text with
  | '(' :: rest =>
    match skip true rest with
    | ')' :: left => some left
    | _ => none
  | _ => none

def plain (inside : Bool) (text : List Char) : Reading :=
  let word := text.takeWhile Text.isWord
  let rest := text.drop word.length
  match number? text with
  | some found => some found
  | none =>
    if (opening? text).isSome then texts? inside text.length text
    else if isName word then some (.fixed, rest)
    else if ['.', '.', '.'].isPrefixOf text then some (.fixed, text.drop 3)
    else if word = "set".toList then
      (afterBrackets? inside rest).map fun left => (.changeable, left)
    else none

def joined (first second : Kind) : Kind :=
  if first = .changeable || second = .changeable then .changeable else .fixed

/-- The kind of a value in brackets of its own. No text beside them is taken with it. -/
def bracketed : Kind → Kind
  | .text => .fixed
  | .bytes => .fixed
  | kind => kind

def withSign? : Kind → Option Kind
  | .real => some .signed
  | .imaginary => some .fixed
  | _ => none

def isSign (char : Char) : Bool :=
  char == '+' || char == '-'

mutual

def atom? (inside : Bool) : (fuel : Nat) → List Char → Reading
  | 0, _ => none
  | fuel + 1, text =>
    match text with
    | '(' :: rest =>
      match skip true rest with
      | ')' :: left => some (.fixed, left)
      | first => (value? true fuel first).bind fun found => tuple? fuel found.1 (skip true found.2)
    | '\x7b' :: rest =>
      match skip true rest with
      | '\x7d' :: left => some (.changeable, left)
      | first => members? fuel none first
    | _ => plain inside text

def tuple? : (fuel : Nat) → (kind : Kind) → List Char → Reading
  | 0, _, _ => none
  | fuel + 1, kind, text =>
    match text with
    | ')' :: rest => some (bracketed kind, rest)
    | ',' :: rest =>
      match skip true rest with
      | ')' :: left => some (joined kind kind, left)
      | next =>
        (value? true fuel next).bind fun found =>
          tuple? fuel (joined kind found.1) (skip true found.2)
    | _ => none

def members? : (fuel : Nat) → (isTable : Option Bool) → List Char → Reading
  | 0, _, _ => none
  | fuel + 1, isTable, text =>
    (value? true fuel text).bind fun (key, afterKey) =>
      match skip true afterKey with
      | ':' :: rest =>
        if key = .changeable || isTable = some false then none
        else
          (value? true fuel (skip true rest)).bind fun found =>
            separated? fuel true (skip true found.2)
      | after =>
        if key = .changeable || isTable = some true then none else separated? fuel false after

def separated? : (fuel : Nat) → (isTable : Bool) → List Char → Reading
  | 0, _, _ => none
  | fuel + 1, isTable, text =>
    match text with
    | '\x7d' :: rest => some (.changeable, rest)
    | ',' :: rest =>
      match skip true rest with
      | '\x7d' :: left => some (.changeable, left)
      | next => members? fuel (some isTable) next
    | _ => none

def signed? (inside : Bool) : (fuel : Nat) → List Char → Reading
  | 0, _ => none
  | fuel + 1, text =>
    match text with
    | [] => none
    | sign :: rest =>
      if isSign sign then
        (atom? inside fuel (skip inside rest)).bind fun (kind, left) =>
          (withSign? kind).map fun kind => (kind, left)
      else atom? inside fuel text

def value? (inside : Bool) : (fuel : Nat) → List Char → Reading
  | 0, _ => none
  | fuel + 1, text =>
    (signed? inside fuel text).bind fun (kind, after) =>
      match skip inside after with
      | [] => some (kind, after)
      | sign :: rest =>
        if isSign sign && (kind = .real || kind = .signed) then
          (atom? inside fuel (skip inside rest)).bind fun (second, left) =>
            if second = .imaginary then some (.fixed, left) else none
        else some (kind, after)

end

def isRow : (fuel : Nat) → List Char → Bool
  | 0, _ => false
  | fuel + 1, text =>
    (value? false fuel text).any fun found =>
      match skip false found.2 with
      | ',' :: rest => (skip true rest).isEmpty || isRow fuel (skip false rest)
      | left => (skip true left).isEmpty

def isLiteral (text : List Char) : Bool :=
  let begun := skip false (Text.unifyReturns text)
  let source := if begun.head? = some '#' then skip true begun else begun
  !source.contains '\x00' && isRow (4 * source.length + 8) source

def openBrackets (text : List Char) : List Char :=
  text.foldl (fun brackets char =>
    if char = '(' || char = '\x7b' then char :: brackets
    else if char = ')' || char = '\x7d' then brackets.drop 1
    else brackets) []

def complaint (text : List Char) : String :=
  match openBrackets text with
  | bracket :: _ => s!"'{bracket}' was never closed"
  | [] => "invalid syntax"

end DollarMath.Console.Literal
