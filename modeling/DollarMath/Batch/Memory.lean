import DollarMath.Batch.Basic
import DollarMath.Text.CodePoint

/-!
Documents kept in memory, some of which may refuse to be read or written.
-/

namespace DollarMath

structure Memory where
  documents : List (String × List Char)
  unreadable : List String := []
  unwritable : List String := []
  written : List String := []

namespace Memory

def replace (name : String) (text : List Char) :
    List (String × List Char) → List (String × List Char)
  | [] => []
  | document :: rest =>
    (if document.1 = name then (name, text) else document) :: replace name text rest

def read (memory : Memory) (name : String) : Except String (List Char) :=
  if memory.unreadable.contains name then .error "cannot read"
  else
    match memory.documents.lookup name with
    | some text => .ok text
    | none => .error "not found"

def write (memory : Memory) (name : String) (text : List Char) : Except String Memory :=
  if memory.unwritable.contains name then .error "cannot write"
  else
    .ok { memory with
      documents := replace name text memory.documents
      written := name :: memory.written }

def store : Store Memory :=
  ⟨fun memory => Text.sortStrings (memory.documents.map Prod.fst), read, write⟩

end Memory

end DollarMath
