import DollarMath.Proofs.Conversion.Content

/-!
Every replacement puts in dollars or drops blanks, so no pass can undo another: passes that give
back the regions they got have each left them as they are.
-/

namespace DollarMath

/-- Nothing is replaced, or there are more dollars afterwards, or as many in a shorter text. -/
structure Moves (old new : Painted) : Prop where
  dollars : old.text.count '$' ≤ new.text.count '$'
  length : new.text.count '$' = old.text.count '$' → new.text.length ≤ old.text.length
  same : new.text.count '$' = old.text.count '$' → new.text.length = old.text.length → new = old

namespace Moves

variable {first second third : Painted}

theorem refl (painted : Painted) : Moves painted painted :=
  ⟨Nat.le_refl _, fun _ => Nat.le_refl _, fun _ _ => rfl⟩

theorem trans (left : Moves first second) (right : Moves second third) : Moves first third := by
  have leftDollars := left.dollars
  have rightDollars := right.dollars
  refine ⟨by omega, fun count => ?_, fun count length => ?_⟩
  · have leftLength := left.length (by omega)
    have rightLength := right.length (by omega)
    omega
  · have leftLength := left.length (by omega)
    have rightLength := right.length (by omega)
    exact (right.same (by omega) (by omega)).trans (left.same (by omega) (by omega))

theorem antisymm (left : Moves first second) (right : Moves second first) : second = first := by
  have leftDollars := left.dollars
  have rightDollars := right.dollars
  have leftLength := left.length (by omega)
  have rightLength := right.length (by omega)
  exact left.same (by omega) (by omega)

end Moves

theorem count_strip (text : List Char) : (Text.strip text).count '$' = text.count '$' := by
  obtain ⟨left, right, whole, leftBlank, rightBlank⟩ := Text.exists_strip text
  have parts := congrArg (List.count '$') whole
  rw [List.count_append, List.count_append, count_of_blank leftBlank, count_of_blank rightBlank]
    at parts
  omega

theorem length_strip_lt {text : List Char} (head : text.head? = some ' ') :
    (Text.strip text).length < text.length := by
  obtain ⟨rest, rfl⟩ := List.head?_eq_some_iff.mp head
  have stripped : Text.stripLeft (' ' :: rest) = Text.stripLeft rest := rfl
  obtain ⟨right, whole, _⟩ := Text.exists_dropRightWhile Text.isBlank (Text.stripLeft rest)
  have parts := congrArg List.length whole
  have shorter := (List.dropWhile_sublist Text.isBlank (l := rest)).length_le
  rw [List.length_append] at parts
  rw [Text.strip, stripped, Text.stripRight, List.length_cons]
  simp only [Text.stripLeft] at parts ⊢
  omega

theorem count_lt_displayBlock (newline indent body : List Char) (previous next : Option Char) :
    body.count '$' < (Piece.join (displayBlock newline indent body previous next)).count '$' := by
  obtain ⟨above, below, _, _, whole⟩ := join_displayBlock newline indent body previous next
  rw [whole]
  simp only [List.count_append]
  have two : List.count '$' ['$', '$'] = 2 := rfl
  omega

theorem count_dollars (body : List Char) :
    (Piece.join [Region.dollars body]).count '$' = body.count '$' + 2 := by
  simp [Region.dollars, List.count_append]

namespace Stage.Replaces

variable {stage : Stage} {before after : Option Char} {text : List Char} {regions : List Region}

theorem moves (replaced : stage.Replaces before text regions after) (filled : text ≠ []) :
    text.count '$' < (Piece.join regions).count '$' ∨
      ((Piece.join regions).count '$' = text.count '$' ∧
        (Piece.join regions).length < text.length) := by
  cases replaced with
  | @squares newline inside _ _ _ _ =>
      left
      have more := count_lt_displayBlock newline [] (Text.strip inside) before after
      rw [count_strip] at more
      simpa [List.count_append] using more
  | @squareLines newline left lead inside trail right _ _ _ _ _ indented blank =>
      left
      obtain ⟨leftBlank, rightBlank⟩ := List.forall_mem_append.mp
        fun char member => Text.isBlank_of_isIndent (indented char member)
      obtain ⟨leadBlank, trailBlank⟩ := List.forall_mem_append.mp blank
      have more := count_lt_displayBlock newline [] (Text.strip inside) before after
      rw [count_strip] at more
      simpa [List.count_append, count_of_blank leftBlank, count_of_blank rightBlank,
        count_of_blank leadBlank, count_of_blank trailBlank] using more
  | parens _ =>
      left
      rw [count_dollars, count_strip]
      simp [List.count_append]
  | @padded inside _ _ _ starts =>
      right
      have shorter := length_strip_lt starts
      refine ⟨?_, ?_⟩
      · rw [count_dollars, count_strip]
        simp [List.count_append]
      · simp only [Region.dollars, Piece.join_cons, Piece.join_nil, List.append_nil,
          List.length_append, List.length_cons, List.length_nil]
        omega
  | @environment newline indent body _ _ _ _ indented =>
      left
      have blank := count_of_blank
        fun char member => Text.isBlank_of_isIndent (indented char member)
      have more := count_lt_displayBlock newline indent body before after
      rw [List.count_append, blank]
      omega
  | @hangingEnvironment newline indent body _ _ _ _ _ _ =>
      left
      have more := count_lt_displayBlock newline [] body indent.getLast? after
      have kept : (Region.outside indent).text = indent := rfl
      rw [Piece.join_cons, List.count_append, List.count_append, kept]
      omega
  | @formula newline _ _ _ _ _ _ _ _ =>
      left
      obtain ⟨right, whole, blank⟩ := Text.exists_dropRightWhile Text.isBlank text
      have parts := congrArg (List.count '$') whole
      rw [List.count_append, count_of_blank blank] at parts
      simp only [Region.display, Piece.join_cons, Piece.join_nil, List.append_nil,
        List.count_append, Text.stripRight]
      have two : List.count '$' ['$', '$'] = 2 := rfl
      omega
  | squareSpan _ =>
      left
      rw [count_dollars, count_strip]
      simp [List.count_append]
  | parenSpan _ =>
      left
      rw [count_dollars, count_strip]
      simp [List.count_append]
  | @degree digit others sign _ _ _ signs =>
      left
      rw [count_dollars, List.count_append, List.count_append]
      rcases signs with rfl | rfl
      · have bare : List.count '$' ['^', '\\', 'c', 'i', 'r', 'c'] = 0 := rfl
        omega
      · omega
  | token _ =>
      left
      rw [count_dollars]
      omega
  | blankLine blank _ _ =>
      right
      have noDollars := @count_of_blank text (by simpa [Text.allBlank] using blank)
      exact ⟨by rw [noDollars]; rfl, List.length_pos_iff.mpr filled⟩

end Stage.Replaces

theorem Revised.moves {stage : Stage} {before after : Option Char} {old new : Painted}
    (revised : Revised stage.Replaces after before old new) : Moves old new := by
  induction revised with
  | nil => exact .refl _
  | @keep _ char kind old new _ ih =>
      have dollars := ih.dollars
      have length := ih.length
      have same := ih.same
      refine ⟨?_, fun count => ?_, fun count total => ?_⟩
      all_goals simp only [Painted.text_cons, List.count_cons, List.length_cons] at *
      · omega
      · have := length (by omega)
        omega
      · rw [same (by omega) (by omega)]
  | @replace _ text regions old new filled replaced _ ih =>
      have dollars := ih.dollars
      have length := ih.length
      have moved := replaced.moves filled
      refine ⟨?_, fun count => ?_, fun count total => ?_⟩
      all_goals simp only [Painted.text_append, Painted.text_outside, Painted.text_paint,
        List.count_append, List.length_append] at *
      · omega
      · have := length (by omega)
        omega
      · have := length (by omega)
        omega

structure Advances (pass : List Region → List Region) : Prop where
  fused : ∀ {regions}, Piece.IsFused regions → Piece.IsFused (pass regions)
  moves : ∀ {regions}, Piece.IsFused regions →
    Moves (Piece.paint regions) (Piece.paint (pass regions))

theorem advances_run (stage : Stage) : Advances stage.run := by
  refine ⟨stage.isFused_run, @fun regions fused => ?_⟩
  exact Stage.preserved_run (motive := Moves (Piece.paint regions))
    (fun _ _ revised moved => moved.trans revised.moves) fused (.refl _)

theorem advances_of_passes {stage : Stage} {pass : List Region → List Region}
    (passes : ∀ {regions}, Piece.IsFused regions → stage.Passes regions (pass regions)) :
    Advances pass :=
  ⟨fun fused => (passes fused).fused, fun fused => (passes fused).revised.moves⟩

theorem advances_foldl {passes : List (List Region → List Region)}
    (advances : ∀ pass ∈ passes, Advances pass) :
    Advances fun regions => passes.foldl (fun regions pass => pass regions) regions := by
  induction passes with
  | nil => exact ⟨id, fun _ => .refl _⟩
  | cons pass passes ih =>
      have own := advances pass (by simp)
      have later := ih fun other member => advances other (List.mem_cons_of_mem _ member)
      exact ⟨fun fused => later.fused (own.fused fused),
        fun fused => (own.moves fused).trans (later.moves (own.fused fused))⟩

theorem eq_self_of_foldl_eq {passes : List (List Region → List Region)}
    (advances : ∀ pass ∈ passes, Advances pass) {regions : List Region}
    (fused : Piece.IsFused regions)
    (same : passes.foldl (fun regions pass => pass regions) regions = regions) :
    ∀ pass ∈ passes, pass regions = regions := by
  induction passes with
  | nil => simp
  | cons pass passes ih =>
      have own := advances pass (by simp)
      have others : ∀ other ∈ passes, Advances other :=
        fun other member => advances other (List.mem_cons_of_mem _ member)
      rw [List.foldl_cons] at same
      -- The other passes move on from the first one to where it started, so it cannot have moved.
      have back := (advances_foldl others).moves (own.fused fused)
      rw [same] at back
      have kept : pass regions = regions :=
        (own.fused fused).eq_of_paint_eq fused ((own.moves fused).antisymm back)
      rw [kept] at same
      intro other member
      rcases List.mem_cons.mp member with rfl | later
      · exact kept
      · exact ih others same other later

theorem foldl_eq_self {passes : List (List Region → List Region)} {regions : List Region}
    (kept : ∀ pass ∈ passes, pass regions = regions) :
    passes.foldl (fun regions pass => pass regions) regions = regions := by
  induction passes with
  | nil => rfl
  | cons pass passes ih =>
      rw [List.foldl_cons, kept pass (by simp)]
      exact ih fun other member => kept other (List.mem_cons_of_mem _ member)

/-- A conversion leaves a document as it is just if each enabled stage leaves its regions so. -/
theorem convert_eq_self_iff (options : Options) (text : List Char) :
    convert options text = text ↔
      ∀ stage ∈ Stage.enabled options,
        stage.run (Document.regions text) = Document.regions text := by
  have fused := Document.isFused_regions text
  have advances : ∀ pass ∈ (Stage.enabled options).map Stage.run, Advances pass := by
    intro pass member
    obtain ⟨stage, _, rfl⟩ := List.mem_map.mp member
    exact advances_run stage
  have folded : convertedRegions options text = ((Stage.enabled options).map Stage.run).foldl
      (fun regions pass => pass regions) (Document.regions text) := by
    rw [List.foldl_map]
    rfl
  have each : (∀ pass ∈ (Stage.enabled options).map Stage.run,
      pass (Document.regions text) = Document.regions text) ↔
      ∀ stage ∈ Stage.enabled options,
        stage.run (Document.regions text) = Document.regions text := by
    simp
  rw [← each]
  constructor
  · intro same
    have spelled : Piece.join (convertedRegions options text) =
        Piece.join (Document.regions text) := by
      rw [Document.join_regions]
      exact same
    rw [folded] at spelled
    have result := advances_foldl advances
    have painted := (result.moves fused).same
      (by rw [Painted.text_paint, Painted.text_paint, spelled])
      (by rw [Painted.text_paint, Painted.text_paint, spelled])
    exact eq_self_of_foldl_eq advances fused ((result.fused fused).eq_of_paint_eq fused painted)
  · intro kept
    rw [convert, folded, foldl_eq_self kept, Document.join_regions]

end DollarMath
