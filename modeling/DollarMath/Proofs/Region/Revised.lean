import DollarMath.Proofs.Region.Fused
import DollarMath.Proofs.Text.Ends
import DollarMath.Region.Edit

/-!
What a pass over the regions can do: keep characters with their kinds, and put regions in the place
of pieces of text outside. Every pass is an instance for its own rule of what may be put where, and
what holds of such a rule is carried over to whole documents by induction on this relation.
-/

namespace DollarMath

abbrev Painted := List (Char × RegionKind)

namespace Painted

def text (painted : Painted) : List Char :=
  painted.map Prod.fst

def outside (text : List Char) : Painted :=
  text.map (·, .outside)

@[simp] theorem text_nil : text [] = [] := rfl

@[simp] theorem text_cons (char : Char) (kind : RegionKind) (painted : Painted) :
    text ((char, kind) :: painted) = char :: text painted := rfl

@[simp] theorem text_append (first second : Painted) :
    text (first ++ second) = text first ++ text second :=
  List.map_append

@[simp] theorem text_paint (regions : List Region) :
    text (Piece.paint regions) = Piece.join regions :=
  Piece.map_fst_paint regions

@[simp] theorem text_map (kind : RegionKind) (chars : List Char) :
    text (chars.map (·, kind)) = chars := by
  simp [text, Function.comp_def]

@[simp] theorem text_outside (chars : List Char) : text (outside chars) = chars :=
  text_map .outside chars

@[simp] theorem outside_nil : outside [] = [] := rfl

@[simp] theorem outside_cons (char : Char) (chars : List Char) :
    outside (char :: chars) = (char, .outside) :: outside chars := rfl

@[simp] theorem outside_append (first second : List Char) :
    outside (first ++ second) = outside first ++ outside second :=
  List.map_append

theorem paint_outside (text : List Char) : Piece.paint [Region.outside text] = outside text := by
  simp [Region.outside, outside]

theorem frozen_paint {region : Region} (frozen : region.kind ≠ .outside) :
    ∀ stroke ∈ Piece.paint [region], stroke.2 ≠ .outside := by
  rw [Piece.paint_cons, Piece.paint_nil, List.append_nil]
  intro stroke member
  obtain ⟨char, _, rfl⟩ := List.mem_map.mp member
  exact frozen

def lastKind : (before : Option RegionKind) → Painted → Option RegionKind
  | before, [] => before
  | _, (_, kind) :: rest => lastKind (some kind) rest

@[simp] theorem lastKind_append (before : Option RegionKind) (first second : Painted) :
    lastKind before (first ++ second) = lastKind (lastKind before first) second := by
  induction first generalizing before with
  | nil => rfl
  | cons stroke first ih => exact ih _

theorem lastKind_map {text : List Char} (filled : text ≠ []) (before : Option RegionKind)
    (kind : RegionKind) : lastKind before (text.map (·, kind)) = some kind := by
  obtain ⟨init, last, rfl⟩ := (List.eq_nil_or_concat' text).resolve_left filled
  rw [List.map_append, lastKind_append]
  rfl

theorem lastKind_of_ne_nil {painted : Painted} (filled : painted ≠ [])
    (before before' : Option RegionKind) : lastKind before' painted = lastKind before painted := by
  obtain ⟨stroke, rest, rfl⟩ := List.exists_cons_of_ne_nil filled
  rfl

end Painted

/-- Says which regions may take the place of a text outside, given the characters around it. -/
abbrev Replacement := Option Char → List Char → List Region → Option Char → Prop

/-- The second text is the first one after replacements that do not overlap, given the character
after the text and the one before it. -/
inductive Revised (replaces : Replacement) (after : Option Char) :
    (before : Option Char) → Painted → Painted → Prop
  | nil {before} : Revised replaces after before [] []
  | keep {before char kind old new} : Revised replaces after (some char) old new →
      Revised replaces after before ((char, kind) :: old) ((char, kind) :: new)
  | replace {before text regions old new} : text ≠ [] →
      replaces before text regions (Text.headOr (Painted.text old) after) →
      Revised replaces after (Text.lastOr before text) old new →
      Revised replaces after before (Painted.outside text ++ old) (Piece.paint regions ++ new)

namespace Revised

variable {replaces : Replacement} {before after : Option Char}

theorem refl (before : Option Char) (painted : Painted) :
    Revised replaces after before painted painted := by
  induction painted generalizing before with
  | nil => exact .nil
  | cons stroke painted ih => exact .keep (ih _)

theorem append {first first' second second' : Painted}
    (left : Revised replaces (Text.headOr second.text after) before first first')
    (right : Revised replaces after (Text.lastOr before first.text) second second') :
    Revised replaces after before (first ++ second) (first' ++ second') := by
  induction left with
  | nil => exact right
  | keep _ ih => exact .keep (ih right)
  | replace nonempty replaced _ ih =>
      rw [List.append_assoc, List.append_assoc]
      refine .replace nonempty ?_ (ih ?_)
      · simpa using replaced
      · simpa using right

theorem single {text : List Char} {regions : List Region} (nonempty : text ≠ [])
    (replaced : replaces before text regions after) :
    Revised replaces after before (Painted.outside text) (Piece.paint regions) := by
  have revised : Revised replaces after before (Painted.outside text ++ [])
      (Piece.paint regions ++ []) := .replace nonempty (by simpa using replaced) .nil
  simpa using revised

theorem of_nil {new : Painted} (revised : Revised replaces after before [] new) : new = [] := by
  generalize oldEq : ([] : Painted) = old at revised
  cases revised with
  | nil => rfl
  | keep _ => simp at oldEq
  | replace nonempty _ _ => simp [Painted.outside, nonempty] at oldEq

theorem drop_frozen {frozen rest new : Painted}
    (isFrozen : ∀ stroke ∈ frozen, stroke.2 ≠ .outside)
    (revised : Revised replaces after before (frozen ++ rest) new) :
    ∃ rest', new = frozen ++ rest' ∧
      Revised replaces after (Text.lastOr before frozen.text) rest rest' := by
  induction frozen generalizing before new with
  | nil => exact ⟨new, rfl, revised⟩
  | cons stroke frozen ih =>
      generalize oldEq : stroke :: frozen ++ rest = old at revised
      cases revised with
      | nil => simp at oldEq
      | keep tail =>
          simp only [List.cons_append, List.cons.injEq] at oldEq
          obtain ⟨rfl, rfl⟩ := oldEq
          obtain ⟨rest', rfl, later⟩ :=
            ih (fun next member => isFrozen next (by simp [member])) tail
          exact ⟨rest', rfl, later⟩
      | @replace _ text _ _ _ nonempty _ _ =>
          obtain ⟨char, text, rfl⟩ := List.exists_cons_of_ne_nil nonempty
          simp only [List.cons_append, Painted.outside_cons, List.cons.injEq] at oldEq
          have kind := isFrozen stroke (by simp)
          rw [oldEq.1] at kind
          exact absurd rfl kind

/-- A frozen stretch cuts a revision in two: it stays, and what is before and after it is revised on
its own. -/
theorem split_frozen {front frozen back new : Painted}
    (nonempty : frozen ≠ []) (isFrozen : ∀ stroke ∈ frozen, stroke.2 ≠ .outside)
    (revised : Revised replaces after before (front ++ (frozen ++ back)) new) :
    ∃ front' back', new = front' ++ (frozen ++ back') ∧
      Revised replaces (Text.headOr frozen.text after) before front front' ∧
      Revised replaces after (Text.lastOr before (front ++ frozen).text) back back' := by
  have first_eq (painted : Painted) : Text.headOr (frozen ++ painted).text after =
      Text.headOr frozen.text after := by
    obtain ⟨stroke, frozen, rfl⟩ := List.exists_cons_of_ne_nil nonempty
    rfl
  generalize oldEq : front ++ (frozen ++ back) = old at revised
  induction revised generalizing front with
  | nil => simp_all
  | @keep before char kind old new tail ih =>
      cases front with
      | nil =>
          have whole : Revised replaces after before (frozen ++ back) ((char, kind) :: new) := by
            rw [List.nil_append] at oldEq
            rw [oldEq]
            exact .keep tail
          obtain ⟨back', newEq, later⟩ := drop_frozen isFrozen whole
          exact ⟨[], back', newEq, .nil, later⟩
      | cons stroke front =>
          simp only [List.cons_append, List.cons.injEq] at oldEq
          obtain ⟨rfl, rfl⟩ := oldEq
          obtain ⟨front', back', rfl, first, second⟩ := ih rfl
          exact ⟨(char, kind) :: front', back', rfl, .keep first, second⟩
  | @replace before text regions old new filled rule tail ih =>
      rcases List.append_eq_append_iff.mp oldEq with ⟨rest, whole, later⟩ | ⟨rest, whole, later⟩
      · cases rest with
        | nil =>
            simp only [List.append_nil] at whole
            simp only [List.nil_append] at later
            subst later
            obtain ⟨back', rfl, second⟩ := drop_frozen isFrozen tail
            rw [first_eq] at rule
            refine ⟨Piece.paint regions, back', rfl, ?_, ?_⟩
            · exact whole ▸ single filled rule
            · rw [← whole]
              simpa using second
        | cons stroke rest =>
            -- The replaced text would reach into the frozen stretch.
            obtain ⟨first, frozen, rfl⟩ := List.exists_cons_of_ne_nil nonempty
            simp only [List.cons_append, List.cons.injEq] at later
            have member : stroke ∈ Painted.outside text := by simp [whole]
            have kind : stroke.2 = .outside := by
              simp only [Painted.outside, List.mem_map] at member
              obtain ⟨char, _, rfl⟩ := member
              rfl
            rw [← later.1] at kind
            exact absurd kind (isFrozen first (by simp))
      · obtain ⟨front', back', rfl, first, second⟩ := ih later.symm
        subst whole later
        rw [Painted.text_append, Text.headOr_append, first_eq] at rule
        exact ⟨Piece.paint regions ++ front', back', by simp, .replace filled rule first,
          by simpa using second⟩

end Revised

end DollarMath
