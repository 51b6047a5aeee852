import DollarMath.Proofs.Document.FenceSpans
import DollarMath.Review

/-!
The parts of the prose that a review reads: the line that a part starts on, which the review counts
from the start of the text, is counted on along the segments.
-/

namespace DollarMath.Review

def proseFrom (line : Nat) : List Segment → List (Nat × List Char)
  | [] => []
  | segment :: rest =>
    let next := proseFrom (line + segment.text.count '\n') rest
    if segment.kind = .prose then (line, segment.text) :: next else next

theorem proseFrom_of_lieOver {text : List Char} {segments : List Located} {start : Nat}
    (lie : Fence.LieOver text start segments) :
    ((segments.filter (·.kind == .prose)).map fun segment =>
        ((text.take segment.span.start).count '\n' + 1, segment.text)) =
      proseFrom ((text.take start).count '\n' + 1) (segments.map Located.toPiece) := by
  induction segments generalizing start with
  | nil => rfl
  | cons segment segments ih =>
      obtain ⟨starts, stops, slice, rest⟩ := lie
      have upTo : text.take segment.span.stop = text.take start ++ segment.text := by
        have above : (text.take segment.span.stop).take start = text.take start := by
          rw [List.take_take, Nat.min_eq_left (by omega)]
        rw [← slice, Span.slice, starts, ← above, List.take_append_drop]
      have feeds : (text.take start).count '\n' + 1 + segment.text.count '\n' =
          (text.take segment.span.stop).count '\n' + 1 := by
        rw [upTo, List.count_append]
        omega
      rw [List.map_cons, proseFrom, feeds, ← ih rest, List.filter_cons]
      by_cases isProse : segment.kind = .prose <;> simp [isProse, starts]

theorem prose_eq_proseFrom (text : List Char) : prose text = proseFrom 1 (Fence.split text) :=
  proseFrom_of_lieOver (Fence.lieOver_locate text)

end DollarMath.Review
