import DollarMath.Yaml.Block
import DollarMath.Yaml.Tag

/-!
The tokens of a document: its marks, names and scalars, and marks that are not written but follow
from the indentation. The list of them ends with the end of the text or with what keeps it from
being read further. This follows the published rules of YAML 1.1, as all of the reader, which the
program has from a library.
-/

namespace DollarMath.Yaml

inductive Token where
  | directive (directive : Directive)
  | documentStart
  | documentEnd
  | blockList
  | blockMapping
  | blockEnd
  | flowList
  | flowListEnd
  | flowMapping
  | flowMappingEnd
  | item
  | key
  | value
  | comma
  | alias (name : List Char)
  | anchor (name : List Char)
  | tag (tag : Tag)
  | scalar (text : ScalarText) (isPlain : Bool)
  | finish
  | fault (error : ReadError)
deriving DecidableEq, Repr

/-- A token that may turn out to start a key, as soon as a colon is found behind it: its number
among the tokens, how many brackets are open, whether it must be a key, and where it stands. -/
structure KeyStart where
  number : Nat
  depth : Nat
  isRequired : Bool
  index : Nat
  line : Nat
  column : Nat
deriving DecidableEq, Repr

def KeyStart.longest : Nat := 1024

/-- How far a document has been read into tokens: the place, the tokens in reverse and their number,
the open brackets, the columns of the open collections that are indented, and the tokens that may
start a key, of which there is one at most for every number of open brackets. -/
structure Layout where
  cursor : Cursor
  tokens : List Token := []
  count : Nat := 0
  depth : Nat := 0
  columns : List Nat := []
  allowsKey : Bool := true
  keys : List KeyStart := []
  isDone : Bool := false

namespace Layout

def column (layout : Layout) : Int :=
  match layout.columns with
  | [] => -1
  | column :: _ => column

def push (layout : Layout) (token : Token) : Layout :=
  { layout with tokens := token :: layout.tokens, count := layout.count + 1 }

def insert (layout : Layout) (number : Nat) (token : Token) : Layout :=
  let later := layout.count - number
  { layout with
    tokens := layout.tokens.take later ++ token :: layout.tokens.drop later
    count := layout.count + 1 }

def isPast (cursor : Cursor) (key : KeyStart) : Bool :=
  key.line != cursor.line || key.index + KeyStart.longest < cursor.index

def dropPast (layout : Layout) : Read Layout :=
  if layout.keys.any fun key => isPast layout.cursor key && key.isRequired then .error .token
  else .ok { layout with keys := layout.keys.filter fun key => !isPast layout.cursor key }

def dropKey (layout : Layout) : Read Layout :=
  if layout.keys.any fun key => key.depth = layout.depth && key.isRequired then .error .token
  else .ok { layout with keys := layout.keys.filter fun key => key.depth != layout.depth }

def markKey (layout : Layout) : Read Layout :=
  if !layout.allowsKey then .ok layout
  else do
    let cursor := layout.cursor
    let dropped ← layout.dropKey
    let isRequired : Bool := layout.depth = 0 && layout.column = cursor.column
    let key : KeyStart :=
      ⟨layout.count, layout.depth, isRequired, cursor.index, cursor.line, cursor.column⟩
    return { dropped with keys := key :: dropped.keys }

def closeTo (column : Int) : (columns : List Nat) → Layout → Layout
  | [], layout => { layout with columns := [] }
  | last :: columns, layout =>
    if column < last then closeTo column columns (layout.push .blockEnd)
    else { layout with columns := last :: columns }

def unindent (layout : Layout) (column : Int) : Layout :=
  if layout.depth = 0 then closeTo column layout.columns layout else layout

def indent (layout : Layout) (column number : Nat) (token : Token) : Layout :=
  if layout.column < column then
    { layout.insert number token with columns := column :: layout.columns }
  else layout

def take (layout : Layout) (size : Nat) (token : Token) : Layout :=
  { layout.push token with cursor := layout.cursor.advance size }

def closeAll (layout : Layout) : Read Layout :=
  ({ layout.unindent (-1) with allowsKey := false }).dropKey

def readDirective (layout : Layout) : Read Layout := do
  let closed ← layout.closeAll
  let (directive, cursor) ← Directive.read layout.cursor
  return { closed.push (.directive directive) with cursor }

def readFinish (layout : Layout) : Read Layout := do
  let closed ← layout.closeAll
  return { closed.push .finish with keys := [], isDone := true }

def openBracket (layout : Layout) (token : Token) : Read Layout := do
  let marked ← layout.markKey
  return { marked.take 1 token with depth := layout.depth + 1, allowsKey := true }

def closeBracket (layout : Layout) (token : Token) : Read Layout := do
  let dropped ← layout.dropKey
  return { dropped.take 1 token with depth := layout.depth - 1, allowsKey := false }

def readComma (layout : Layout) : Read Layout := do
  let dropped ← layout.dropKey
  return { dropped.take 1 .comma with allowsKey := true }

/-- A mark after which a node starts. Outside brackets it may stand only where a key may, and starts
a collection of its kind if none is open there. -/
def readEntry (layout : Layout) (mark collection : Token) : Read Layout := do
  if layout.depth = 0 && !layout.allowsKey then throw .token
  let started :=
    if layout.depth = 0 then layout.indent layout.cursor.column layout.count collection else layout
  let dropped ← started.dropKey
  return dropped.take 1 mark

def readItem (layout : Layout) : Read Layout :=
  (layout.readEntry .item .blockList).map fun read => { read with allowsKey := true }

def readKeyMark (layout : Layout) : Read Layout :=
  (layout.readEntry .key .blockMapping).map fun read =>
    { read with allowsKey := layout.depth = 0 }

def readValue (layout : Layout) : Read Layout :=
  match layout.keys.find? fun key => key.depth = layout.depth with
  | some key =>
    let found := layout.insert key.number .key
    let started :=
      if layout.depth = 0 then found.indent key.column key.number .blockMapping else found
    .ok { started.take 1 .value with
      keys := layout.keys.filter fun other => other.depth != layout.depth
      allowsKey := false }
  | none =>
    (layout.readEntry .value .blockMapping).map fun read =>
      { read with allowsKey := layout.depth = 0 }

def readWord (layout : Layout) (read : Cursor → Read (Token × Cursor)) : Read Layout := do
  let marked ← layout.markKey
  let (token, cursor) ← read layout.cursor
  return { marked.push token with cursor, allowsKey := false }

def readNamed (layout : Layout) (token : List Char → Token) : Read Layout :=
  layout.readWord fun cursor =>
    (readName nameEnds cursor.rest.tail).map fun parts =>
      (token parts.1, cursor.moveTo parts.2)

def readTag (layout : Layout) : Read Layout :=
  layout.readWord fun cursor =>
    (Tag.read cursor.rest).map fun parts => (.tag parts.1, cursor.moveTo parts.2)

def readQuoted (layout : Layout) (quote : Char) : Read Layout :=
  layout.readWord fun cursor =>
    (quotedScalar quote cursor).map fun parts => (.scalar parts.1 false, parts.2)

def readBlock (layout : Layout) (folds : Bool) : Read Layout := do
  let dropped ← layout.dropKey
  let (chars, cursor) ← blockScalar folds layout.column layout.cursor
  return { dropped.push (.scalar ⟨chars, false⟩ false) with cursor, allowsKey := true }

def readPlain (layout : Layout) : Read Layout := do
  let marked ← layout.markKey
  let cursor := layout.cursor
  let (chars, after, ended) :=
    plain (0 < layout.depth) (layout.column + 1) false cursor.rest.length cursor
  return { marked.push (.scalar ⟨chars, false⟩ true) with cursor := after, allowsKey := ended }

def skip (layout : Layout) : Layout :=
  let cursor := layout.cursor
  let start :=
    if cursor.index = 0 && cursor.rest.head? == some byteOrderMark then cursor.next else cursor
  let there := start.skip start.rest.length
  let hasNewLine : Bool := there.line != cursor.line
  { layout with
    cursor := there
    allowsKey := layout.allowsKey || (hasNewLine && layout.depth = 0) }

def readHere (layout : Layout) : Read Layout :=
  let flow : Bool := 0 < layout.depth
  let cursor := layout.cursor
  match cursor.rest with
  | [] => layout.readFinish
  | char :: rest =>
    let startsLine : Bool := cursor.column = 0
    if char = '%' && startsLine then layout.readDirective
    else if char = '-' && startsLine && isSeparator cursor.rest then
      layout.closeAll.map (take · 3 .documentStart)
    else if char = '.' && startsLine && isSeparator cursor.rest then
      layout.closeAll.map (take · 3 .documentEnd)
    else if char = '[' then layout.openBracket .flowList
    else if char = '\x7b' then layout.openBracket .flowMapping
    else if char = ']' then layout.closeBracket .flowListEnd
    else if char = '\x7d' then layout.closeBracket .flowMappingEnd
    else if char = ',' then layout.readComma
    else if char = '-' && endsToken rest then layout.readItem
    else if char = '?' && (flow || endsToken rest) then layout.readKeyMark
    else if char = ':' && (flow || endsToken rest) then layout.readValue
    else if char = '*' then layout.readNamed .alias
    else if char = '&' then layout.readNamed .anchor
    else if char = '!' then layout.readTag
    else if char = '|' && !flow then layout.readBlock false
    else if char = '>' && !flow then layout.readBlock true
    else if char = '\'' || char = '"' then layout.readQuoted char
    else if startsPlain flow cursor.rest then layout.readPlain
    else .error .token

def step (layout : Layout) : Read Layout := do
  let there ← layout.skip.dropPast
  let read ← (there.unindent there.cursor.column).readHere
  if read.isDone then return read else read.dropPast

/-- The number of tokens that are settled: those before the first one that may turn out to start a
key. -/
def settled (layout : Layout) : Nat :=
  layout.keys.foldl (fun least key => min least key.number) layout.count

/-- The tokens of the text. What cannot be read comes after the tokens that were settled before it
was reached. -/
def finish : (fuel : Nat) → Layout → List Token
  | 0, layout => layout.tokens.reverse
  | fuel + 1, layout =>
    match layout.step with
    | .ok read => if read.isDone then read.tokens.reverse else finish fuel read
    | .error error => layout.tokens.reverse.take layout.settled ++ [.fault error]

end Layout

def tokens (text : List Char) : List Token :=
  Layout.finish (text.length + 1) { cursor := .ofText text }

end DollarMath.Yaml
