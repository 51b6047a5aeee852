import DollarMath.Proofs.Document.Fences

/-!
The spans of the segments of a text: they lie end to end over the text, so the offset of a segment
is the length of all that stands before it.
-/

namespace DollarMath.Fence

/-- Segments lie end to end from an offset to the end of the text, each where its text stands. -/
def LieOver (text : List Char) (start : Nat) : List Located → Prop
  | [] => start = text.length
  | segment :: segments =>
    segment.span.start = start ∧ segment.span.stop = start + segment.text.length ∧
      segment.span.slice text = segment.text ∧ LieOver text segment.span.stop segments

theorem lieOver_cons {text before part rest : List Char} {kind : SegmentKind}
    {segments : List Located} (whole : text = before ++ (part ++ rest)) :
    LieOver text before.length
        (Located.ofSpan text (kind, ⟨before.length, (before ++ part).length⟩) :: segments) ↔
      LieOver text (before ++ part).length segments := by
  have slice := @Span.slice_append before part rest
  rw [← whole, ← List.length_append] at slice
  have own : (Located.ofSpan text (kind, ⟨before.length, (before ++ part).length⟩)).text = part :=
    slice
  rw [LieOver, own]
  constructor
  · exact fun lie => lie.2.2.2
  · exact fun rest => ⟨rfl, List.length_append, slice, rest⟩

theorem lieOver_proseSpan_append {text before stretch rest : List Char} {segments : List Located}
    (whole : text = before ++ (stretch ++ rest)) :
    LieOver text before.length
        ((proseSpan before.length (before ++ stretch).length).map (Located.ofSpan text) ++
          segments) ↔
      LieOver text (before ++ stretch).length segments := by
  cases stretch with
  | nil => simp [proseSpan]
  | cons char stretch =>
      have filled : before.length < (before ++ char :: stretch).length := by simp
      rw [proseSpan, if_pos filled, List.map_singleton, List.singleton_append, lieOver_cons whole]

theorem lieOver_spansFrom {text before stretch : List Char} {lines : List (List Char)}
    (whole : text = before ++ (stretch ++ lines.flatten)) :
    LieOver text before.length
      ((spansFrom before.length (before ++ stretch).length lines).map (Located.ofSpan text)) := by
  fun_induction cut lines generalizing before stretch with
  | case1 =>
      rw [spansFrom, ← List.append_nil (List.map _ _), lieOver_proseSpan_append whole]
      simp [whole, LieOver]
  | case2 line rest inside last after found ih =>
      obtain ⟨rfl, _⟩ := block?_eq_some_iff.mp found
      have parts := Text.lineBody_append_lineReturn last
      have whole' : text = (before ++ stretch ++ (line ++ inside.flatten ++ Text.lineBody last)) ++
          (Text.lineReturn last ++ after.flatten) := by
        rw [whole]
        simp only [List.flatten_cons, List.flatten_append, List.append_assoc]
        rw [← List.append_assoc (Text.lineBody last), parts]
      have stop : (before ++ stretch).length + line.length + inside.flatten.length +
          (Text.lineBody last).length =
            (before ++ stretch ++ (line ++ inside.flatten ++ Text.lineBody last)).length := by
        simp only [List.length_append]
        omega
      rw [spansFrom_of_some found, stop, ← List.length_append, List.map_append, List.map_cons,
        lieOver_proseSpan_append whole, lieOver_cons (by rw [whole', List.append_assoc])]
      exact ih whole'
  | case3 line rest found ih =>
      rw [spansFrom_of_none found, ← List.length_append, List.append_assoc]
      exact ih (by simp [whole])

theorem lieOver_locate (text : List Char) : LieOver text 0 (locate text) :=
  @lieOver_spansFrom text [] [] _ (by simp)

theorem place_of_lieOver {text : List Char} {segments : List Located} {start : Nat}
    (lie : LieOver text start segments) :
    Piece.place start (segments.map Located.toPiece) =
      segments.map fun segment => (segment.span.start, segment.toPiece) := by
  induction segments generalizing start with
  | nil => rfl
  | cons segment segments ih =>
      obtain ⟨starts, stops, _, rest⟩ := lie
      rw [List.map_cons, Piece.place, List.map_cons, ← stops, ih rest, starts]

theorem place_split (text : List Char) :
    Piece.place 0 (split text) =
      (locate text).map fun segment => (segment.span.start, segment.toPiece) :=
  place_of_lieOver (lieOver_locate text)

end DollarMath.Fence
