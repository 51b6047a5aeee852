import DollarMath.Yaml.Kind
import DollarMath.Yaml.Token

/-!
The parts of a document, put together from its tokens: scalars, lists and mappings, each of a kind.
A name for a part that is used again stands for the part. This follows the published rules of YAML
1.1, as all of the reader, which the program has from a library.
-/

namespace DollarMath.Yaml

/-- A part of a document. A link stands for a part inside of which it stands itself. -/
inductive Node where
  | scalar (kind : Kind) (text : ScalarText)
  | list (kind : Kind) (items : List Node)
  | mapping (kind : Kind) (members : List (Node × Node))
  | link (name : List Char)
deriving Repr, Inhabited

namespace Node

def empty : Node :=
  scalar .null ⟨[], false⟩

mutual

def unlink (name : List Char) (target : Node) : Node → Node
  | scalar kind text => scalar kind text
  | list kind items => list kind (unlinkItems name target items)
  | mapping kind members => mapping kind (unlinkMembers name target members)
  | link other => if other = name then target else link other

def unlinkItems (name : List Char) (target : Node) : List Node → List Node
  | [] => []
  | item :: items => unlink name target item :: unlinkItems name target items

def unlinkMembers (name : List Char) (target : Node) :
    List (Node × Node) → List (Node × Node)
  | [] => []
  | member :: members => unlinkMember name target member :: unlinkMembers name target members

def unlinkMember (name : List Char) (target : Node) : Node × Node → Node × Node
  | (key, value) => (unlink name target key, unlink name target value)

end

end Node

/-- The tokens that are left, how many lists and mappings the next one stands inside of, the parts
that were given names, and what the handles of tags stand for. -/
structure Pending where
  tokens : List Token
  depth : Nat := 0
  names : List (List Char × Node) := []
  handles : List (List Char × List Char) := []

abbrev Parse (α : Type) := StateT Pending (Except ReadError) α

namespace Parse

def peek : Parse Token := do
  match (← get).tokens with
  | [] => return .finish
  | .fault error :: _ => throw error
  | token :: _ => return token

def drop : Parse Unit :=
  modify fun pending => { pending with tokens := pending.tokens.tail }

def dropIf (token : Token) : Parse Bool := do
  if (← peek) = token then
    drop
    return true
  else return false

def expectComma : Parse Unit := do
  if !(← dropIf .comma) then throw .mismatch

def defaultHandles : List (List Char × List Char) :=
  [(['!'], ['!']), (['!', '!'], Kind.commonStart.toList)]

def fullName (tag : Tag) : Parse (List Char) := do
  match tag.handle with
  | none => return tag.name
  | some handle =>
    match ((← get).handles ++ defaultHandles).lookup handle with
    | some start => return start ++ tag.name
    | none => throw .mismatch

def anchor? : Parse (Option (List Char)) := do
  match ← peek with
  | .anchor name =>
    drop
    return some name
  | _ => return none

def tag? : Parse (Option Tag) := do
  match ← peek with
  | .tag tag =>
    drop
    return some tag
  | _ => return none

/-- The name that a part is given, and that of its kind, in any order. A single exclamation mark
gives no kind, but is told apart from no name. -/
def properties : Parse (Option (List Char) × Option (List Char)) := do
  let first ← anchor?
  let tag ← tag?
  let second ← if first.isNone && tag.isSome then anchor? else pure none
  match tag with
  | none => return (first.or second, none)
  | some tag => return (first.or second, some (← fullName tag))

def collectionKind (usual : Kind) (name : Option (List Char)) : Kind :=
  match name with
  | none => usual
  | some name => if name = ['!'] then usual else .ofName (String.ofList name)

def scalarKind (isPlain : Bool) (name : Option (List Char)) (text : List Char) : Kind :=
  match name with
  | none => if isPlain then .ofPlain text else .text
  | some name => if name = ['!'] then .ofPlain text else .ofName (String.ofList name)

def give (name : Option (List Char)) (node : Node) : Parse Unit := do
  match name with
  | none => return
  | some name =>
    if (← get).names.any (·.1 == name) then throw .reference
    modify fun pending => { pending with names := (name, node) :: pending.names }

def complete (name : Option (List Char)) (node : Node) : Parse Node :=
  match name with
  | none => return node
  | some name => do
    let whole := node.unlink name node
    modify fun pending => { pending with
      names := (name, whole) :: pending.names.map fun entry =>
        (entry.1, entry.2.unlink name whole) }
    return whole

def deepest : Nat := 486

def inside (body : Parse Node) : Parse Node := do
  let depth := (← get).depth
  if depth = deepest then throw (.valueless .tooDeep)
  modify fun pending => { pending with depth := depth + 1 }
  let node ← body
  modify fun pending => { pending with depth }
  return node

/-- A collection that may have a name, by which its parts may refer to it. -/
def collection (name : Option (List Char)) (body : Parse Node) : Parse Node := do
  give name (.link (name.getD []))
  complete name (← inside body)

def scalar (name : Option (List Char)) (node : Node) : Parse Node := do
  give name node
  return node

def endsEntry (token : Token) : Bool :=
  token = .key || token = .value || token = .blockEnd

def endsFlow (last token : Token) : Bool :=
  token = .comma || token = last

mutual

/-- A part. Lists and mappings that are indented may stand where `block` says so, and lists that are
not indented further than their key where `indentless` does. -/
def node : (fuel : Nat) → (block indentless : Bool) → Parse Node
  | 0, _, _ => throw .mismatch
  | fuel + 1, block, indentless => do
    match ← peek with
    | .alias name =>
      drop
      match (← get).names.lookup name with
      | some node => return node
      | none => throw .reference
    | _ =>
      let (name, kind) ← properties
      let list (items : Parse (List Node)) : Parse Node :=
        collection name do return .list (collectionKind .list kind) (← items)
      let mapping (members : Parse (List (Node × Node))) : Parse Node :=
        collection name do return .mapping (collectionKind .mapping kind) (← members)
      let token ← peek
      if token = .item && indentless then list (indentlessItems fuel)
      else
        match token with
        | .scalar text isPlain =>
          drop
          scalar name (.scalar (scalarKind isPlain kind text.chars) text)
        | .flowList =>
          drop
          list (flowItems fuel true)
        | .flowMapping =>
          drop
          mapping (flowMembers fuel true)
        | .blockList =>
          if !block then bare name kind
          else
            drop
            list (blockItems fuel)
        | .blockMapping =>
          if !block then bare name kind
          else
            drop
            mapping (blockMembers fuel)
        | _ => bare name kind

def bare (name kind : Option (List Char)) : Parse Node :=
  if name.isNone && kind.isNone then throw .mismatch
  else scalar name (.scalar (scalarKind true kind []) ⟨[], false⟩)

def nodeBefore (fuel : Nat) (block indentless : Bool) (ends : Token → Bool) : Parse Node := do
  if ends (← peek) then return .empty else node fuel block indentless

def blockItems : (fuel : Nat) → Parse (List Node)
  | 0 => throw .mismatch
  | fuel + 1 => do
    if ← dropIf .item then
      let item ← nodeBefore fuel true false fun token => token = .item || token = .blockEnd
      return item :: (← blockItems fuel)
    else if ← dropIf .blockEnd then return []
    else throw .mismatch

def indentlessItems : (fuel : Nat) → Parse (List Node)
  | 0 => throw .mismatch
  | fuel + 1 => do
    if ← dropIf .item then
      let item ← nodeBefore fuel true false fun token => token = .item || endsEntry token
      return item :: (← indentlessItems fuel)
    else return []

def blockMembers : (fuel : Nat) → Parse (List (Node × Node))
  | 0 => throw .mismatch
  | fuel + 1 => do
    if ← dropIf .key then
      let key ← nodeBefore fuel true true endsEntry
      let value ← if ← dropIf .value then nodeBefore fuel true true endsEntry else pure .empty
      return (key, value) :: (← blockMembers fuel)
    else if ← dropIf .blockEnd then return []
    else throw .mismatch

def flowValue (fuel : Nat) (last : Token) : Parse Node := do
  if ← dropIf .value then nodeBefore fuel false false (endsFlow last) else return .empty

def flowItems : (fuel : Nat) → (isFirst : Bool) → Parse (List Node)
  | 0, _ => throw .mismatch
  | fuel + 1, isFirst => do
    if ← dropIf .flowListEnd then return []
    if !isFirst then expectComma
    if ← dropIf .flowListEnd then return []
    let item ←
      if ← dropIf .key then
        inside do
          let key ← nodeBefore fuel false false fun token =>
            token = .value || endsFlow .flowListEnd token
          let value ← flowValue fuel .flowListEnd
          return .mapping .mapping [(key, value)]
      else node fuel false false
    return item :: (← flowItems fuel false)

def flowMembers : (fuel : Nat) → (isFirst : Bool) → Parse (List (Node × Node))
  | 0, _ => throw .mismatch
  | fuel + 1, isFirst => do
    if ← dropIf .flowMappingEnd then return []
    if !isFirst then expectComma
    if ← dropIf .flowMappingEnd then return []
    let member ←
      if ← dropIf .key then
        let key ← nodeBefore fuel false false fun token =>
          token = .value || endsFlow .flowMappingEnd token
        let value ← flowValue fuel .flowMappingEnd
        pure (key, value)
      else pure (← node fuel false false, .empty)
    return member :: (← flowMembers fuel false)

end

def directives : (fuel : Nat) → (hasVersion : Bool) → Parse Unit
  | 0, _ => return
  | fuel + 1, hasVersion => do
    match ← peek with
    | .directive (.version major) =>
      drop
      if hasVersion || major != 1 then throw .mismatch
      directives fuel true
    | .directive (.handle handle start) =>
      drop
      if (← get).handles.any (·.1 == handle) then throw .mismatch
      modify fun pending => { pending with handles := (handle, start) :: pending.handles }
      directives fuel hasVersion
    | .directive .other =>
      drop
      directives fuel hasVersion
    | _ => return

def documentStart (fuel : Nat) : Parse Unit := do
  modify fun pending => { pending with handles := [] }
  directives fuel false
  if !(← dropIf .documentStart) then throw .mismatch

def isOutside : Token → Bool
  | .directive _ => true
  | .documentStart => true
  | .documentEnd => true
  | .finish => true
  | _ => false

def dropEnds : (fuel : Nat) → Parse Unit
  | 0 => return
  | fuel + 1 => do
    if ← dropIf .documentEnd then dropEnds fuel else return

def document (fuel : Nat) : Parse (Option Node) := do
  match ← peek with
  | .finish => return none
  | token =>
    let isStarted : Bool := isOutside token && token != .documentEnd
    if isStarted then documentStart fuel
    let root ← nodeBefore fuel true false fun token => isStarted && isOutside token
    dropEnds fuel
    if (← peek) = .finish then return some root
    documentStart fuel
    throw .reference

end Parse

def Node.ofTokens? (tokens : List Token) : Read (Option Node) :=
  ((Parse.document (4 * tokens.length + 4)).run { tokens }).map Prod.fst

end DollarMath.Yaml
