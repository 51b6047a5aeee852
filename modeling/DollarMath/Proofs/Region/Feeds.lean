import DollarMath.Proofs.Region.Passes
import DollarMath.Proofs.Text.Search

/-!
Revisions of a text that starts with a line feed: the line feed stays, whether it is held back or
not, and the rest is revised as text after it.
-/

namespace DollarMath

def Build.place {α : Type} (build : Build α) (before after : Option Char) :
    Text.Found α → List Region
  | .gap char => [Region.outside [char]]
  | .hit previous taken value next =>
    (build (previous.or before) taken value (next.or after)).getD [Region.outside taken]

theorem substitution_eq {α : Type} (recognize : Text.Recognizer α) (build : Build α)
    (before : Option Char) (text : List Char) (after : Option Char) :
    substitution recognize build before text after =
      (Text.scan recognize none text).flatMap (build.place before after) := by
  refine List.flatMap_congr fun found _ => ?_
  cases found <;> rfl

theorem paint_flatMap_gaps {α : Type} (build : Build α) (before after : Option Char)
    (text : List Char) :
    Piece.paint ((text.map .gap).flatMap (build.place before after)) = Painted.outside text := by
  induction text with
  | nil => rfl
  | cons char text ih =>
      rw [List.map_cons, List.flatMap_cons, Piece.paint_append, ih]
      rfl

/-- Where nothing is found, nothing is substituted. -/
theorem paint_substitution_of_missed {α : Type} {recognize : Text.Recognizer α} {text : List Char}
    (missed : ∀ before char rest, char :: rest <:+ text → recognize before (char :: rest) = none)
    (build : Build α) (before after : Option Char) :
    Piece.paint (substitution recognize build before text after) = Painted.outside text := by
  have gaps : Text.scan recognize none text = text.map .gap := by
    have scanned := @Text.scan_append_of_missed _ recognize none text [] fun lead char back split => by
      rw [List.append_nil]
      exact missed _ _ _ ⟨lead, split.symm⟩
    simpa [Text.scan] using scanned
  rw [substitution_eq, gaps, paint_flatMap_gaps]

def Revision.PassesFeed (revise : Revision) : Prop :=
  ∀ before text after, revise before ('\n' :: text) after =
    Region.outside ['\n'] :: if text.isEmpty then [] else revise (some '\n') text after

theorem substitution_feed {α : Type} {first second : Text.Recognizer α} {build : Build α}
    (passes : ∀ rest, first none ('\n' :: rest) = none)
    (starts : ∀ text, first (some '\n') text = second none text)
    (same : ∀ char text, first (some char) text = second (some char) text)
    (before : Option Char) (text : List Char) (after : Option Char) :
    substitution first build before ('\n' :: text) after =
      Region.outside ['\n'] :: substitution second build (some '\n') text after := by
  -- Once a character is read, what stands before the text is not looked at.
  have inside {last : Option Char} (isSome : last.isSome = true) (rest : List Char) :
      (Text.scan first last rest).flatMap (build.place before after) =
        (Text.scan second last rest).flatMap (build.place (some '\n') after) := by
    rw [Text.scan_congr same isSome]
    refine List.flatMap_congr fun found member => ?_
    cases found with
    | gap char => rfl
    | hit previous taken value next =>
        obtain ⟨char, rfl⟩ := Option.isSome_iff_exists.mp (Text.isSome_of_mem_scan isSome member)
        rfl
  rw [substitution_eq, substitution_eq, Text.scan, passes]
  dsimp only
  rw [List.flatMap_cons, Build.place, List.singleton_append]
  congr 1
  cases text with
  | nil => simp [Text.scan]
  | cons char rest =>
      rw [Text.scan, Text.scan, starts]
      cases second none (char :: rest) with
      | none =>
          dsimp only
          rw [List.flatMap_cons, List.flatMap_cons, inside rfl]
          rfl
      | some found =>
          dsimp only
          rw [List.flatMap_cons, List.flatMap_cons, inside (by simp)]
          rfl

theorem passesFeed_substitution {α : Type} {recognize : Text.Recognizer α} {build : Build α}
    (passes : ∀ rest, recognize none ('\n' :: rest) = none)
    (starts : ∀ text, recognize (some '\n') text = recognize none text) :
    Revision.PassesFeed (substitution recognize build) := by
  intro before text after
  rw [substitution_feed passes starts fun _ _ => rfl]
  cases text with
  | nil => simp [substitution, Text.scan]
  | cons char rest => rfl

theorem reviseAround_free {revise : Revision} (passes : revise.PassesFeed) (before : Option Char)
    (text : List Char) (after : Option Char) :
    reviseAround revise after before 0 ('\n' :: text) [] =
      Region.outside ['\n'] :: reviseAround revise after (some '\n') 1 text [] := by
  rw [reviseAround, reviseAround, passes]
  rfl

/-- Whether a line feed at the start of a text is held back or not, it stays. -/
theorem reviseAround_feed {revise : Revision} (passes : revise.PassesFeed)
    {extra spans : List Span} (opening : extra = [] ∨ extra = [⟨0, 1⟩])
    (later : ∀ span ∈ spans, 1 ≤ span.start) (before : Option Char) (text : List Char)
    (after : Option Char) :
    reviseAround revise after before 0 ('\n' :: text) (extra ++ spans) =
      Region.outside ['\n'] :: reviseAround revise after (some '\n') 1 text spans := by
  rcases opening with rfl | rfl
  · cases spans with
    | nil => exact reviseAround_free passes before text after
    | cons span spans =>
        obtain ⟨start, startEq⟩ := Nat.exists_eq_add_of_le' (later span (by simp))
        have last := Text.getLast?_or ('\n' :: text.take start) before
        rw [Text.lastOr_cons, ← Text.getLast?_or] at last
        simp only [List.nil_append, reviseAround, startEq, Nat.sub_zero, List.take_succ_cons,
          List.drop_succ_cons, Nat.add_sub_cancel, List.isEmpty_cons, last]
        rw [passes]
        rfl
  · rfl

theorem reviseUpTo_feed {revise : Revision} (passes : revise.PassesFeed) {skip : Region → Bool}
    {kind : RegionKind} {text : List Char} {regions : List Region} {held : List (List Span)}
    {extra extra' : List Span}
    (opening : extra = [] ∨ extra = [⟨0, 1⟩]) (opening' : extra' = [] ∨ extra' = [⟨0, 1⟩])
    (later : ∀ spans, held.head? = some spans → ∀ span ∈ spans, 1 ≤ span.start)
    (before before' after : Option Char) :
    reviseUpTo revise skip after before (⟨kind, '\n' :: text⟩ :: regions)
        (held.modifyHead (extra ++ ·)) =
      reviseUpTo revise skip after before' (⟨kind, '\n' :: text⟩ :: regions)
        (held.modifyHead (extra' ++ ·)) := by
  rw [reviseUpTo, reviseUpTo]
  cases held with
  | nil =>
      rw [List.modifyHead_nil, List.modifyHead_nil, List.headD_nil, reviseAround_free passes,
        reviseAround_free passes]
  | cons spans held =>
      rw [List.modifyHead_cons, List.modifyHead_cons, List.headD_cons, List.headD_cons,
        reviseAround_feed passes opening (later spans rfl),
        reviseAround_feed passes opening' (later spans rfl)]
      rfl

end DollarMath
