/-!
A document as a list of pieces of text, each of one kind. Fusing drops empty pieces and joins
neighbours of one kind; it keeps what every character is.
-/

namespace DollarMath

structure Piece (κ : Type) where
  kind : κ
  text : List Char
deriving DecidableEq, Repr

namespace Piece

variable {κ : Type}

def join (pieces : List (Piece κ)) : List Char :=
  pieces.flatMap text

def paint (pieces : List (Piece κ)) : List (Char × κ) :=
  pieces.flatMap fun piece => piece.text.map fun char => (char, piece.kind)

variable [DecidableEq κ]

def attach (piece : Piece κ) : List (Piece κ) → List (Piece κ)
  | [] => if piece.text.isEmpty then [] else [piece]
  | next :: rest =>
    if piece.text.isEmpty then next :: rest
    else if piece.kind = next.kind then ⟨piece.kind, piece.text ++ next.text⟩ :: rest
    else piece :: next :: rest

def fuse (pieces : List (Piece κ)) : List (Piece κ) :=
  pieces.foldr attach []

theorem paint_attach (piece : Piece κ) (pieces : List (Piece κ)) :
    paint (attach piece pieces) = paint (piece :: pieces) := by
  unfold attach
  split
  · split <;> simp_all [paint]
  · split
    · simp_all [paint]
    · split
      next same => simp [paint, same]
      next => rfl

@[simp] theorem paint_fuse (pieces : List (Piece κ)) : paint (fuse pieces) = paint pieces := by
  induction pieces with
  | nil => rfl
  | cons piece pieces ih =>
    have tail : paint (pieces.foldr attach []) = paint pieces := ih
    rw [fuse, List.foldr_cons, paint_attach]
    simp only [paint, List.flatMap_cons] at tail ⊢
    rw [tail]

omit [DecidableEq κ] in
theorem map_fst_paint (pieces : List (Piece κ)) : (paint pieces).map Prod.fst = join pieces := by
  induction pieces with
  | nil => rfl
  | cons piece pieces ih =>
    simp only [paint, join, List.flatMap_cons, List.map_append] at ih ⊢
    rw [ih]
    simp [Function.comp_def]

@[simp] theorem join_fuse (pieces : List (Piece κ)) : join (fuse pieces) = join pieces := by
  rw [← map_fst_paint, paint_fuse, map_fst_paint]

end Piece

/-- What a part of a document is. Only text outside all the others is ever revised. -/
inductive RegionKind where
  | code
  | link
  | display
  | inline
  | outside
deriving DecidableEq, Repr

abbrev Region := Piece RegionKind

namespace Region

def code (text : List Char) : Region := ⟨.code, text⟩

def link (text : List Char) : Region := ⟨.link, text⟩

def display (text : List Char) : Region := ⟨.display, text⟩

def dollars (body : List Char) : Region := ⟨.inline, '$' :: body ++ ['$']⟩

def outside (text : List Char) : Region := ⟨.outside, text⟩

end Region

def Piece.isOutside (region : Region) : Bool :=
  region.kind == .outside

/-- The line end that a document uses, judged by its first line feed. -/
def lineEnding (text : List Char) : List Char :=
  let firstLine := text.takeWhile (· != '\n')
  if text.contains '\n' && firstLine.getLast? == some '\r' then ['\r', '\n'] else ['\n']

end DollarMath
