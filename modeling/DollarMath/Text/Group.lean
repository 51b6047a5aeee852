/-!
Balanced brackets. A backslash takes the character after it out of account.
-/

namespace DollarMath.Text

/-- How many characters come before the bracket that closes a group, given the text after its
opening bracket and the number of groups open inside it. -/
def closingOffset? (opening closing : Char) : (depth : Nat) → List Char → Option Nat
  | _, [] => none
  | depth, char :: rest =>
    if char = '\\' then
      match rest with
      | [] => none
      | _ :: later => (closingOffset? opening closing depth later).map (· + 2)
    else if char = opening then (closingOffset? opening closing (depth + 1) rest).map (· + 1)
    else if char = closing then
      match depth with
      | 0 => some 0
      | outer + 1 => (closingOffset? opening closing outer rest).map (· + 1)
    else (closingOffset? opening closing depth rest).map (· + 1)

def findClosing? (opening closing : Char) (text : List Char) (start : Nat) : Option Nat :=
  if text[start]? = some opening then
    (closingOffset? opening closing 0 (text.drop (start + 1))).map (· + (start + 1))
  else none

/-- Where the group closes that opens at the given offset, an offset below zero being counted from
the end of the text. From there the search goes on at the start of the text. There is nothing before
the text where a group could open. -/
def findClosingAround? (opening closing : Char) (text : List Char) (start : Int) :
    Option (Option Int) :=
  if 0 ≤ start then some ((findClosing? opening closing text start.toNat).map Int.ofNat)
  else
    let place := start + text.length
    if place < 0 then none
    else
      let turned := text.drop place.toNat ++ text
      some ((findClosing? opening closing turned 0).map fun size => start + size)

def afterGroup? (opening closing : Char) (text : List Char) : Option (List Char) :=
  (findClosing? opening closing text 0).map fun stop => text.drop (stop + 1)

/-- The outermost groups as offsets of their two brackets, the text starting at the given offset.
A bracket that opens no group is passed over, so groups after it count. -/
def groupsFrom (opening closing : Char) (offset : Nat) : List Char → List (Nat × Nat)
  | [] => []
  | char :: rest =>
    if char = '\\' then groupsFrom opening closing (offset + 2) (rest.drop 1)
    else if char = opening then
      match closingOffset? opening closing 0 rest with
      | some size =>
        (offset, offset + 1 + size) ::
          groupsFrom opening closing (offset + size + 2) (rest.drop (size + 1))
      | none => groupsFrom opening closing (offset + 1) rest
    else groupsFrom opening closing (offset + 1) rest
termination_by text => text.length
decreasing_by
  all_goals simp only [List.length_drop, List.length_cons]
  all_goals omega

def groups (opening closing : Char) (text : List Char) : List (Nat × Nat) :=
  groupsFrom opening closing 0 text

end DollarMath.Text
