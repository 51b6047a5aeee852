import DollarMath.Settings.Value
import DollarMath.Text.Base64
import DollarMath.Text.Lines
import DollarMath.Text.Lowercase
import DollarMath.Yaml.Node

/-!
The values that the parts of a document stand for. Of all that is wrong with the parts, what counts
is what lies inside the fewest collections, and of that the first. This is where the program calls
the library that it reads with. Of the reader, theorems on all documents use only that no key of a
mapping is there twice; that the reader gives back what the writer wrote is a hypothesis of theirs,
`Session.Rereads`.
-/

namespace DollarMath.Yaml

/-- A value, and what is wrong with its parts, each with the number of collections around it. -/
structure Meaning (α : Type) where
  value : α
  faults : List (Nat × ReadError) := []

namespace Meaning

def map {α β : Type} (change : α → β) (meaning : Meaning α) : Meaning β :=
  ⟨change meaning.value, meaning.faults⟩

def gravest? (faults : List (Nat × ReadError)) : Option (Nat × ReadError) :=
  faults.foldl (fun found fault =>
    match found with
    | none => some fault
    | some best => if fault.1 < best.1 then some fault else some best) none

def result {α : Type} (meaning : Meaning α) : Read α :=
  match gravest? meaning.faults with
  | some fault => .error fault.2
  | none => .ok meaning.value

end Meaning

def boolValue (text : List Char) : Except Fault Bool :=
  let word := Text.lower text
  if ["yes", "true", "on"].contains (String.ofList word) then .ok true
  else if ["no", "false", "off"].contains (String.ofList word) then .ok false
  else .error (.notBool word)

def dropUnderscores (text : List Char) : List Char :=
  text.filter (· != '_')

/-- A value in base sixty, the parts being given from the last one on, with the weight of the
last. -/
def sexagesimal {α : Type} (add mul : α → α → α) (sixty : α) (weight total : α) : List α → α
  | [] => total
  | part :: parts =>
    sexagesimal add mul sixty (mul weight sixty) (add total (mul part weight)) parts

def intValue (text : List Char) : Except NumeralFault Int :=
  let digits := dropUnderscores text
  let (negative, body) := Numeral.splitSign digits
  let sign : Int := if negative then -1 else 1
  let read (base : Nat) (text : List Char) : Except NumeralFault Int :=
    (Numeral.int? base text).map (sign * ·)
  match body with
  | [] => .error .missing
  | ['0'] => .ok 0
  | '0' :: 'b' :: rest => read 2 rest
  | '0' :: 'x' :: rest => read 16 rest
  | '0' :: _ => read 8 body
  | _ =>
    if body.contains ':' then
      ((Text.splitAt ':' body).mapM (Numeral.int? 10)).map fun parts =>
        sign * sexagesimal (· + ·) (· * ·) 60 1 0 parts.reverse
    else read 10 body

def realValue (text : List Char) : Except NumeralFault Binary64 :=
  let digits := Text.lower (dropUnderscores text)
  let (negative, body) := Numeral.splitSign digits
  let signed (value : Binary64) : Binary64 := if negative then value.negate else value
  if digits.isEmpty then .error .missing
  else if body = ".inf".toList then .ok (.infinite negative)
  else if body = ".nan".toList then .ok .undefined
  else if body.contains ':' then
    ((Text.splitAt ':' body).mapM Numeral.real?).map fun parts =>
      signed (sexagesimal .add .mul (.ofNat 60) (.ofNat 1) .zero parts.reverse)
  else (Numeral.real? body).map signed

def timestampValue (text : List Char) : Except Fault Scalar :=
  match Timestamp.read? (Kind.dropFeed text) with
  | none => .error .notMoment
  | some timestamp =>
    match timestamp.toScalar with
    | .error fault => .error (.calendar fault)
    | .ok (.inl date) => .ok (.date date)
    | .ok (.inr moment) => .ok (.moment moment)

def scalarValue (kind : Kind) (text : ScalarText) : Read Scalar :=
  match kind with
  | .null => .ok .null
  | .bool => ((boolValue text.chars).map Scalar.bool).mapError .valueless
  | .int => ((intValue text.chars).map Scalar.int).mapError fun fault => .valueless (.numeral fault)
  | .real =>
    ((realValue text.chars).map Scalar.real).mapError fun fault => .valueless (.numeral fault)
  | .text =>
    let value := String.ofList text.chars
    .ok (if text.malformed then .malformed value else .text value)
  | .bytes =>
    if text.chars.all fun char => char.toNat < 128 then
      match Text.bytesOfBase64? text.chars with
      | some value => .ok (.bytes value)
      | none => .error .meaning
    else .error .meaning
  | .timestamp => (timestampValue text.chars).mapError .valueless
  | _ => .error .meaning

def Kind.isScalar (kind : Kind) : Bool :=
  kind = .null || kind = .bool || kind = .int || kind = .real || kind = .text || kind = .bytes ||
    kind = .timestamp

def Kind.isCollection (kind : Kind) : Bool :=
  kind = .list || kind = .mapping || kind = .set || kind = .orderedMapping || kind = .pairs

namespace Node

def kind : Node → Kind
  | scalar kind _ => kind
  | list kind _ => kind
  | mapping kind _ => kind
  | link _ => .null

mutual

def height : Node → Nat
  | scalar _ _ => 1
  | list _ items => heightOfItems items + 1
  | mapping _ members => heightOfMembers members + 1
  | link _ => 1

def heightOfItems : List Node → Nat
  | [] => 0
  | item :: items => max item.height (heightOfItems items)

def heightOfMembers : List (Node × Node) → Nat
  | [] => 0
  | member :: members => max (heightOfMember member) (heightOfMembers members)

def heightOfMember : Node × Node → Nat
  | (key, value) => max key.height value.height

def scalarText? : Node → Option ScalarText
  | scalar _ text => some text
  | mapping _ members => textOfMembers? members
  | _ => none

def textOfMembers? : List (Node × Node) → Option ScalarText
  | [] => none
  | member :: members =>
    if isValueKey member then textOfMember? member else textOfMembers? members

def textOfMember? : Node × Node → Option ScalarText
  | (_, value) => value.scalarText?

def isValueKey : Node × Node → Bool
  | (key, _) => key.kind = .value

end

def plainKey : Node → Node
  | scalar .value text => scalar .text text
  | other => other

/-- The members of a mapping after those that are merged into it, or none if something is to be
merged that is no mapping. -/
def merged? : (fuel : Nat) → List (Node × Node) → Option (List (Node × Node))
  | 0, _ => none
  | fuel + 1, members => do
    let mergedOf (node : Node) : Option (List (Node × Node)) :=
      match node with
      | mapping _ inner => merged? fuel inner
      | _ => none
    let outer := members.filter fun member => member.1.kind != .merge
    let inner ← (members.filter fun member => member.1.kind = .merge).mapM fun member =>
      match member.2 with
      | list _ items => (items.mapM mergedOf).map fun parts => parts.reverse.flatten
      | other => mergedOf other
    return inner.flatten ++ outer.map fun member => (member.1.plainKey, member.2)

def itemsMeaning (part : Node → Meaning Value) (items : List Node) : Meaning (List Value) :=
  let found := items.map part
  ⟨found.map Meaning.value, found.flatMap Meaning.faults⟩

def pairMeaning (depth : Nat) (part : Node → Meaning Value) : Node → Meaning Value
  | mapping _ [(key, value)] => (itemsMeaning part [key, value]).map .list
  | _ => ⟨.null, [(depth, .meaning)]⟩

def membersMeaning (depth : Nat) (part : Node → Meaning Value) (found : Section) :
    List (Node × Node) → Meaning Section
  | [] => ⟨found, []⟩
  | (key, value) :: members =>
    let keyMeaning := part key
    let valueMeaning := part value
    let (next, misused) : Section × List (Nat × ReadError) :=
      match keyMeaning.value with
      | .scalar key => (found.assign key valueMeaning.value, [])
      | _ => (found, [(depth, .meaning)])
    let rest := membersMeaning depth part next members
    ⟨rest.value, keyMeaning.faults ++ misused ++ valueMeaning.faults ++ rest.faults⟩

def meaning : (fuel : Nat) → (depth : Nat) → Node → Meaning Value
  | 0, depth, _ => ⟨.null, [(depth, .meaning)]⟩
  | _, _, link _ => ⟨.null, []⟩
  | fuel + 1, depth, node =>
    let part := meaning fuel (depth + 1)
    let mappingMeaning (members : List (Node × Node)) : Meaning Section :=
      match merged? fuel members with
      | some all => membersMeaning (depth + 1) part [] all
      | none => ⟨[], [(depth + 1, .meaning)]⟩
    if node.kind.isScalar then
      match node.scalarText?.elim (.error .meaning) (scalarValue node.kind) with
      | .ok value => ⟨.scalar value, []⟩
      | .error error => ⟨.null, [(depth, error)]⟩
    else if node.kind.isCollection then
      match node.kind, node with
      | .list, list _ items => (itemsMeaning part items).map .list
      | .orderedMapping, list _ items =>
        (itemsMeaning (pairMeaning (depth + 1) part) items).map .list
      | .pairs, list _ items => (itemsMeaning (pairMeaning (depth + 1) part) items).map .list
      | .mapping, mapping _ members => (mappingMeaning members).map .mapping
      | .set, mapping _ members =>
        (mappingMeaning members).map fun found => .set (found.map Prod.fst)
      | _, _ => ⟨.list [], [(depth + 1, .meaning)]⟩
    else ⟨.null, [(depth, .meaning)]⟩

def toValue (node : Node) : Read Value :=
  (node.meaning (node.height + 1) 0).result

end Node

def isAllowed (char : Char) : Bool :=
  let code := char.toNat
  code == 9 || code == 10 || code == 13 || (0x20 ≤ code && code ≤ 0x7E) || code == 0x85 ||
    (0xA0 ≤ code && code ≤ 0xFFFD) || 0x10000 ≤ code

def read (source : String) : Read Value := do
  let text := Text.unifyReturns source.toList
  if !text.all isAllowed then throw .character
  match ← Node.ofTokens? (tokens text) with
  | none => return .null
  | some root => root.toValue

end DollarMath.Yaml
