import DollarMath.Text.Scan

/-!
Ranges of offsets in a text.
-/

namespace DollarMath

structure Span where
  start : Nat
  stop : Nat
deriving DecidableEq, Repr

namespace Span

def contains (span : Span) (offset : Nat) : Bool :=
  span.start ≤ offset && offset < span.stop

def slice (span : Span) (text : List Char) : List Char :=
  (text.take span.stop).drop span.start

theorem slice_append {pre part post : List Char} :
    slice ⟨pre.length, pre.length + part.length⟩ (pre ++ (part ++ post)) = part := by
  simp [slice, ← List.append_assoc, ← List.length_append]

end Span

def Text.hitSpans {α : Type} (offset : Nat) : List (Text.Found α) → List Span
  | [] => []
  | .gap _ :: parts => hitSpans (offset + 1) parts
  | .hit _ taken _ _ :: parts =>
    ⟨offset, offset + taken.length⟩ :: hitSpans (offset + taken.length) parts

end DollarMath
