import DollarMath.Proofs.Lists
import DollarMath.Proofs.Region.Feeds
import DollarMath.Proofs.Region.Fused
import DollarMath.Proofs.Text.Ends

/-!
What a substitution does with each part of a document: it keeps it, or puts regions in its place.
-/

namespace DollarMath

inductive Treatment where
  | kept (region : Region)
  | replaced (text : List Char) (made : List Region)
deriving DecidableEq, Repr

namespace Treatment

def source : Treatment → Region
  | kept region => region
  | replaced text _ => Region.outside text

def result : Treatment → List Region
  | kept region => [region]
  | replaced _ made => made

def sourceText (parts : List Treatment) : List Char :=
  Piece.join (parts.map source)

@[simp] theorem sourceText_nil : sourceText [] = [] := rfl

@[simp] theorem sourceText_cons (part : Treatment) (parts : List Treatment) :
    sourceText (part :: parts) = part.source.text ++ sourceText parts := rfl

@[simp] theorem sourceText_append (first second : List Treatment) :
    sourceText (first ++ second) = sourceText first ++ sourceText second := by
  rw [sourceText, List.map_append, Piece.join_append]
  rfl

end Treatment

variable {α : Type} {recognize : Text.Recognizer α} {build : Build α}

def Build.treat (build : Build α) (before after : Option Char) : Text.Found α → Treatment
  | .gap char => .kept (Region.outside [char])
  | .hit previous taken value next =>
    match build (previous.or before) taken value (next.or after) with
    | some made => .replaced taken made
    | none => .kept (Region.outside taken)

def treatments (recognize : Text.Recognizer α) (build : Build α) :
    (before : Option Char) → List Region → List Treatment
  | _, [] => []
  | before, region :: regions =>
    (if region.isOutside then
      (Text.scan recognize none region.text).map (build.treat before (firstOf regions))
    else [.kept region]) ++ treatments recognize build region.text.getLast? regions

theorem treatments_of_frozen {before : Option Char} {region : Region} {regions : List Region}
    (frozen : region.kind ≠ .outside) :
    treatments recognize build before (region :: regions) =
      .kept region :: treatments recognize build region.text.getLast? regions := by
  rw [treatments, if_neg (by simpa [Piece.isOutside] using frozen)]
  rfl

theorem source_treat (before after : Option Char) (found : Text.Found α) :
    (build.treat before after found).source = Region.outside found.text := by
  cases found with
  | gap char => rfl
  | hit previous taken value next =>
      rw [Build.treat]
      cases build (previous.or before) taken value (next.or after) <;> rfl

theorem result_treat (before after : Option Char) (found : Text.Found α) :
    (build.treat before after found).result = build.place before after found := by
  cases found with
  | gap char => rfl
  | hit previous taken value next =>
      rw [Build.treat, Build.place]
      cases build (previous.or before) taken value (next.or after) <;> rfl

theorem treat_eq_replaced {before after : Option Char} {found : Text.Found α} {text : List Char}
    {made : List Region} (treated : build.treat before after found = .replaced text made) :
    ∃ previous value next, found = .hit previous text value next ∧
      build (previous.or before) text value (next.or after) = some made := by
  cases found with
  | gap char => simp [Build.treat] at treated
  | hit previous taken value next =>
      unfold Build.treat at treated
      dsimp only at treated
      split at treated
      next built =>
        obtain ⟨rfl, rfl⟩ := Treatment.replaced.inj treated
        exact ⟨previous, value, next, rfl, built⟩
      next => simp at treated

theorem sourceText_treat (before after : Option Char) (parts : List (Text.Found α)) :
    Treatment.sourceText (parts.map (build.treat before after)) = parts.flatMap Text.Found.text := by
  induction parts with
  | nil => rfl
  | cons found parts ih =>
      rw [List.map_cons, Treatment.sourceText_cons, source_treat, ih, List.flatMap_cons]
      rfl

theorem paint_source_treatments (before : Option Char) (regions : List Region) :
    Piece.paint ((treatments recognize build before regions).map Treatment.source) =
      Piece.paint regions := by
  induction regions generalizing before with
  | nil => rfl
  | cons region regions ih =>
      rw [treatments, List.map_append, Piece.paint_append, ih, Piece.paint_eq_append region]
      congr 1
      split
      next free =>
        have spelled := Text.flatMap_text_scan recognize none region.text
        generalize Text.scan recognize none region.text = parts at spelled
        have kind : region.kind = .outside := by simpa [Piece.isOutside] using free
        rw [Piece.paint_cons, Piece.paint_nil, List.append_nil, ← spelled, kind]
        clear spelled
        induction parts with
        | nil => rfl
        | cons found parts ih =>
            rw [List.map_cons, List.map_cons, Piece.paint_cons, source_treat, ih,
              List.flatMap_cons, List.map_append]
            rfl
      next => rfl

theorem flatMap_result_treatments {regions : List Region}
    (nonempty : ∀ region ∈ regions, region.text ≠ []) (before : Option Char) :
    (treatments recognize build before regions).flatMap Treatment.result =
      reviseOutsideAfter (substitution recognize build) (fun _ => false) before regions [] := by
  induction regions generalizing before with
  | nil => rfl
  | cons region regions ih =>
      rw [treatments, List.flatMap_append, ih (fun other member => nonempty other (by simp [member])),
        reviseOutsideAfter]
      congr 1
      by_cases free : region.isOutside
      · rw [if_pos free, if_pos (by simpa using free), List.headD_nil, reviseAround,
          if_neg (by simpa using nonempty region (by simp)), substitution_eq, List.flatMap_map]
        exact List.flatMap_congr fun found _ => result_treat _ _ found
      · rw [if_neg free, if_neg (by simpa using free)]
        rfl

theorem fuse_result_treatments {regions : List Region}
    (nonempty : ∀ region ∈ regions, region.text ≠ []) :
    Piece.fuse ((treatments recognize build none regions).flatMap Treatment.result) =
      reviseOutside (substitution recognize build) regions := by
  rw [flatMap_result_treatments nonempty, reviseOutside]

theorem exists_of_treatments {regions : List Region} {before : Option Char}
    {left right : List Treatment} {text : List Char} {made : List Region}
    (nonempty : ∀ region ∈ regions, region.text ≠ [])
    (parts : treatments recognize build before regions = left ++ .replaced text made :: right) :
    ∃ above region below front previous value next back,
      regions = above ++ region :: below ∧ region.kind = .outside ∧
      Text.scan recognize none region.text = front ++ .hit previous text value next :: back ∧
      build (previous.or (Text.lastOr before (Piece.join above))) text value
        (next.or (firstOf below)) = some made ∧
      Treatment.sourceText left = Piece.join above ++ front.flatMap Text.Found.text ∧
      right = back.map (build.treat (Text.lastOr before (Piece.join above)) (firstOf below)) ++
        treatments recognize build region.text.getLast? below := by
  induction regions generalizing before left with
  | nil => simp [treatments] at parts
  | cons region regions ih =>
      rw [treatments] at parts
      rcases append_eq_append_cons parts with ⟨rest, own, rightEq⟩ | ⟨rest, leftEq, later⟩
      · split at own
        next free =>
          obtain ⟨front, _, scanned, rfl, tailEq⟩ := List.map_eq_append_iff.mp own
          obtain ⟨found, back, rfl, treated, rfl⟩ := List.map_eq_cons_iff.mp tailEq
          obtain ⟨previous, value, next, rfl, built⟩ := treat_eq_replaced treated
          exact ⟨[], region, regions, front, previous, value, next, back, rfl,
            by simpa [Piece.isOutside] using free, scanned, built, sourceText_treat _ _ _, rightEq⟩
        next =>
          have shape := congrArg List.length own
          cases left with
          | nil => simp at own
          | cons => simp at shape
      · obtain ⟨above, other, below, front, previous, value, next, back, rfl, free, scanned, built,
          restEq, rightEq⟩ := ih (fun other member => nonempty other (by simp [member])) later
        rw [← Text.lastOr_of_ne_nil (nonempty region (by simp)) before, ← Text.lastOr_append,
          ← Piece.join_cons] at built rightEq
        refine ⟨region :: above, other, below, front, previous, value, next, back, rfl, free, scanned,
          built, ?_, rightEq⟩
        rw [leftEq, Treatment.sourceText_append, restEq, Piece.join_cons, List.append_assoc]
        congr 1
        split
        next => rw [sourceText_treat, Text.flatMap_text_scan]
        next => simp [Treatment.source]

end DollarMath
