import DollarMath.Proofs.Conversion.Passes
import DollarMath.Proofs.Document.Chunks

/-!
Frozen text comes through a conversion as it is and in order, and the same code and links are found
in the regions afterwards.
-/

namespace DollarMath

def frozenRuns : List Region → List (List Char)
  | [] => []
  | region :: regions =>
    let runs := frozenRuns regions
    if region.isOutside then runs
    else if regions.head?.any (!·.isOutside) then runs.modifyHead (region.text ++ ·)
    else region.text :: runs

example : frozenRuns (Document.regions "a $b$`c` \\(d\\) `e`".toList) =
    ["$b$`c`".toList, "`e`".toList] := by
  decide +kernel

/-- The runs stand in the text one after the other, with other text before, between and after. -/
def Weaves : List (List Char) → List Char → Prop
  | [], _ => True
  | run :: runs, text => ∃ gap rest, text = gap ++ run ++ rest ∧ Weaves runs rest

namespace Painted

def Carries : List Painted → Painted → Prop
  | [], _ => True
  | run :: runs, painted => ∃ gap rest, painted = gap ++ (run ++ rest) ∧ Carries runs rest

def IsFrozen (run : Painted) : Prop :=
  run ≠ [] ∧ ∀ stroke ∈ run, stroke.2 ≠ .outside

theorem Carries.append {runs : List Painted} {painted : Painted} (front : Painted)
    (carried : Carries runs painted) : Carries runs (front ++ painted) := by
  cases runs with
  | nil => trivial
  | cons run runs =>
      obtain ⟨gap, rest, rfl, later⟩ := carried
      exact ⟨front ++ gap, rest, by simp, later⟩

theorem Carries.weaves {runs : List Painted} {painted : Painted} (carried : Carries runs painted) :
    Weaves (runs.map text) painted.text := by
  induction runs generalizing painted with
  | nil => trivial
  | cons run runs ih =>
      obtain ⟨gap, rest, rfl, later⟩ := carried
      exact ⟨gap.text, rest.text, by simp, ih later⟩

end Painted

theorem Revised.carries {replaces : Replacement} {after before : Option Char}
    {runs : List Painted} {old new : Painted} (revised : Revised replaces after before old new)
    (frozen : ∀ run ∈ runs, run.IsFrozen) (carried : Painted.Carries runs old) :
    Painted.Carries runs new := by
  induction runs generalizing before old new with
  | nil => trivial
  | cons run runs ih =>
      obtain ⟨gap, rest, rfl, later⟩ := carried
      obtain ⟨nonempty, kinds⟩ := frozen run (by simp)
      -- The run cuts the revision in two, and what follows it is revised on its own.
      obtain ⟨gap', rest', rfl, _, revisedRest⟩ := revised.split_frozen nonempty kinds
      exact ⟨gap', rest', rfl,
        ih revisedRest (fun other member => frozen other (List.mem_cons_of_mem _ member)) later⟩

theorem isFrozen_paint {region : Region} (nonempty : region.text ≠ [])
    (kept : region.isOutside = false) : Painted.IsFrozen (Piece.paint [region]) := by
  have kind : region.kind ≠ .outside := by
    intro outside
    rw [Piece.isOutside_iff.mpr outside] at kept
    exact absurd kept (by decide)
  exact ⟨by simpa using nonempty, Painted.frozen_paint kind⟩

/-- The frozen runs of regions are carried by what they paint, the first one at its start if the
first region is frozen. -/
theorem exists_runs {regions : List Region} (nonempty : ∀ region ∈ regions, region.text ≠ []) :
    ∃ runs : List Painted, runs.map Painted.text = frozenRuns regions ∧
      (∀ run ∈ runs, run.IsFrozen) ∧ Painted.Carries runs (Piece.paint regions) ∧
      (regions.head?.any (!·.isOutside) = true → ∃ run others rest, runs = run :: others ∧
        Piece.paint regions = run ++ rest ∧ Painted.Carries others rest) := by
  induction regions with
  | nil => exact ⟨[], rfl, by simp, trivial, by simp⟩
  | cons region regions ih =>
      obtain ⟨runs, runsEq, frozen, carried, starts⟩ :=
        ih fun other member => nonempty other (List.mem_cons_of_mem _ member)
      have paintEq := Piece.paint_eq_append region regions
      cases kind : region.isOutside with
      | true =>
          refine ⟨runs, ?_, frozen, ?_, by simp [kind]⟩
          · rw [frozenRuns, kind, if_pos rfl, runsEq]
          · rw [paintEq]
            exact carried.append _
      | false =>
          have own := isFrozen_paint (nonempty region (by simp)) kind
          cases goesOn : regions.head?.any (!·.isOutside) with
          | true =>
              obtain ⟨run, others, rest, rfl, restEq, later⟩ := starts goesOn
              have runFrozen := frozen run (by simp)
              refine ⟨(Piece.paint [region] ++ run) :: others, ?_, ?_, ?_, ?_⟩
              · rw [frozenRuns, kind, goesOn, ← runsEq]
                simp
              · intro other member
                rcases List.mem_cons.mp member with rfl | inOthers
                · refine ⟨fun isNil => own.1 (List.append_eq_nil_iff.mp isNil).1,
                    fun stroke inRun => ?_⟩
                  rcases List.mem_append.mp inRun with first | second
                  · exact own.2 stroke first
                  · exact runFrozen.2 stroke second
                · exact frozen other (List.mem_cons_of_mem _ inOthers)
              · exact ⟨[], rest, by rw [paintEq, restEq]; simp, later⟩
              · exact fun _ => ⟨_, others, rest, rfl, by rw [paintEq, restEq]; simp, later⟩
          | false =>
              refine ⟨Piece.paint [region] :: runs, ?_, ?_, ?_, ?_⟩
              · rw [frozenRuns, kind, goesOn, ← runsEq]
                simp
              · intro other member
                rcases List.mem_cons.mp member with rfl | inRuns
                · exact own
                · exact frozen other inRuns
              · exact ⟨[], Piece.paint regions, by rw [paintEq]; rfl, carried⟩
              · exact fun _ => ⟨_, runs, Piece.paint regions, rfl, paintEq, carried⟩

theorem weaves_of_carries {regions : List Region} {painted : Painted}
    (fused : Piece.IsFused regions)
    (keeps : ∀ runs : List Painted, (∀ run ∈ runs, run.IsFrozen) →
      Painted.Carries runs (Piece.paint regions) → Painted.Carries runs painted) :
    Weaves (frozenRuns regions) painted.text := by
  obtain ⟨runs, runsEq, frozen, carried, _⟩ := exists_runs fused.nonempty
  rw [← runsEq]
  exact (keeps runs frozen carried).weaves

theorem Stage.weaves_run (stage : Stage) {regions : List Region} (fused : Piece.IsFused regions) :
    Weaves (frozenRuns regions) (Piece.join (stage.run regions)) := by
  rw [← Painted.text_paint]
  refine weaves_of_carries fused fun runs frozen carried => ?_
  exact Stage.preserved_run (motive := Painted.Carries runs)
    (fun _ _ revised => revised.carries frozen) fused carried

/-- No code and no link ends with a line feed right before text outside, given whether one ends so
before the text. -/
def Sealed : (held : Bool) → Painted → Prop
  | _, [] => True
  | held, (char, kind) :: rest =>
      (held = true → kind ≠ .outside) ∧ Sealed (kind.isVerbatim && char == '\n') rest

namespace Sealed

theorem append {held : Bool} {first second : Painted} (left : Sealed held first)
    (right : ∀ held, Sealed held second) : Sealed held (first ++ second) := by
  induction first generalizing held with
  | nil => exact right held
  | cons stroke first ih => exact ⟨left.1, ih left.2⟩

theorem of_append {held : Bool} {first second : Painted} (whole : Sealed held (first ++ second)) :
    Sealed held first := by
  induction first generalizing held with
  | nil => trivial
  | cons stroke first ih => exact ⟨whole.1, ih whole.2⟩

theorem append_piece {held : Bool} {kind : RegionKind} {text : List Char} {rest : Painted}
    (start : held = true → kind ≠ .outside)
    (ends : kind.isVerbatim = true → kind ≠ .outside ∧ text.getLast? ≠ some '\n')
    (filled : text ≠ [])
    (later : Sealed false rest) : Sealed held (text.map (·, kind) ++ rest) := by
  induction text generalizing held with
  | nil => exact absurd rfl filled
  | cons char text ih =>
      refine ⟨start, ?_⟩
      cases text with
      | nil =>
          have free : (kind.isVerbatim && char == '\n') = false := by
            cases verbatim : kind.isVerbatim with
            | false => rfl
            | true => simpa using (ends verbatim).2
          rw [free]
          exact later
      | cons next text =>
          refine ih (fun inside => ?_) (fun verbatim => ?_) (by simp)
          · simp only [Bool.and_eq_true] at inside
            exact (ends inside.1).1
          · rw [← List.getLast?_cons_cons (a := char)]
            exact ends verbatim

theorem drop_outside {held : Bool} {text : List Char} {rest : Painted} (filled : text ≠ [])
    (whole : Sealed held (Painted.outside text ++ rest)) : held = false ∧ Sealed false rest := by
  induction text generalizing held with
  | nil => exact absurd rfl filled
  | cons char text ih =>
      obtain ⟨start, later⟩ := whole
      have free : held = false := by
        cases held with
        | false => rfl
        | true => exact absurd rfl (start rfl)
      cases text with
      | nil => exact ⟨free, later⟩
      | cons next text => exact ⟨free, (ih (by simp) later).2⟩

end Sealed

/-- A revision that puts in no line feed of code or links at the end of one keeps text sealed. -/
theorem Revised.sealed {replaces : Replacement} {after before : Option Char} {held : Bool}
    {old new : Painted} (revised : Revised replaces after before old new)
    (keeps : ∀ before text regions after, replaces before text regions after → text ≠ [] →
      ∀ rest, Sealed false rest → Sealed false (Piece.paint regions ++ rest))
    (whole : Sealed held old) : Sealed held new := by
  induction revised generalizing held with
  | nil => exact whole
  | keep _ ih => exact ⟨whole.1, ih whole.2⟩
  | replace filled replaced _ ih =>
      obtain ⟨rfl, later⟩ := whole.drop_outside filled
      exact keeps _ _ _ _ replaced filled _ (ih later)

namespace Document

theorem sealed_marks {before after : Option Char} {text : List Char} {regions : List Region}
    (marked : Marks before text regions after) (filled : text ≠ []) (rest : Painted)
    (later : Sealed false rest) : Sealed false (Piece.paint regions ++ rest) := by
  cases marked with
  | mark frozen ends =>
      rw [Piece.paint_cons, Piece.paint_nil, List.append_nil]
      refine Sealed.append_piece (by simp) ?_ filled later
      exact fun verbatim => ⟨frozen, ends.notFeed verbatim⟩

theorem sealed_of_marked {old new : Painted} (marked : Relation.ReflTransGen MarkedTo old new)
    (whole : Sealed false old) : Sealed false new := by
  induction marked with
  | refl => exact whole
  | tail _ pass ih => exact pass.sealed (fun _ _ _ _ => sealed_marks) ih

theorem sealed_outside (text : List Char) : Sealed false (Painted.outside text) := by
  induction text with
  | nil => trivial
  | cons char text ih => exact ⟨by simp, ih⟩

theorem sealed_frozen {kind : RegionKind} (frozen : kind ≠ .outside) (held : Bool)
    (text : List Char) : Sealed held (text.map (·, kind)) := by
  induction text generalizing held with
  | nil => trivial
  | cons char text ih => exact ⟨fun _ => frozen, ih _⟩

theorem sealed_proseRegions (text : List Char) :
    Sealed false (Piece.paint (proseRegions text)) := by
  by_cases empty : text = []
  · have unpainted : Piece.paint (proseRegions text) = [] := by
      have spelled := join_proseRegions text
      rw [empty, ← Painted.text_paint] at spelled
      rw [empty]
      exact List.map_eq_nil_iff.mp spelled
    rw [unpainted]
    trivial
  · cases blob : Link.isBlob (Text.strip text) with
    | true =>
        simp only [proseRegions, blob, if_true, Region.link, Piece.paint_cons, Piece.paint_nil,
          List.append_nil]
        exact sealed_frozen (by decide) _ _
    | false => exact sealed_of_marked (marked_proseRegions empty blob) (sealed_outside text)

theorem sealed_chunks {before : Option Char} {front : List Char} {parts : Fence.Parts}
    (framed : Fence.Framed before parts) :
    Sealed false (Chunks.paint (Piece.paint (proseRegions front)) (Chunks.ofParts parts)) := by
  induction parts generalizing before front with
  | nil => simpa [Chunks.ofParts] using sealed_proseRegions front
  | cons part parts ih =>
      obtain ⟨block, prose⟩ := part
      have isBlock := framed.2.1
      simp only [Chunks.ofParts, List.map_cons, Chunks.paint_cons]
      refine (sealed_proseRegions front).append fun held => ?_
      refine Sealed.append_piece (by simp) (fun _ => ⟨by simp, ?_⟩) isBlock.ne_nil (ih framed.2.2.2)
      obtain ⟨char, last, fence⟩ := isBlock.getLast
      intro feed
      rw [last, Option.some.injEq] at feed
      rw [feed] at fence
      exact absurd fence (by decide)

theorem sealed_regions (text : List Char) : Sealed false (Piece.paint (regions text)) := by
  obtain ⟨front, parts, _, framed, painted⟩ := exists_chunks text
  rw [painted]
  exact sealed_chunks framed

end Document

namespace Stage.Replaces

variable {stage : Stage} {before after : Option Char} {text : List Char} {regions : List Region}

theorem plain_displayBlock (newline indent body : List Char) (previous next : Option Char) :
    ∀ region ∈ displayBlock newline indent body previous next, region.kind.isVerbatim = false := by
  intro region member
  simp only [displayBlock, List.mem_append, List.mem_cons] at member
  rcases member with above | rfl | below
  · split at above
    · rw [List.mem_singleton.mp above]
      rfl
    · simp at above
  · rfl
  · split at below
    · rw [List.mem_singleton.mp below]
      rfl
    · simp at below

theorem plain (replaced : stage.Replaces before text regions after) :
    ∀ region ∈ regions, region.kind.isVerbatim = false := by
  have dollars (body : List Char) :
      ∀ region ∈ [Region.dollars body], region.kind.isVerbatim = false := by
    simp [Region.dollars, RegionKind.isVerbatim]
  cases replaced with
  | squares _ _ => exact plain_displayBlock _ _ _ _ _
  | squareLines _ _ _ _ _ => exact plain_displayBlock _ _ _ _ _
  | parens _ => exact dollars _
  | padded _ _ => exact dollars _
  | environment _ _ _ => exact plain_displayBlock _ _ _ _ _
  | hangingEnvironment _ _ _ _ => exact List.forall_mem_cons.mpr ⟨rfl, plain_displayBlock _ _ _ _ _⟩
  | formula _ _ _ _ _ => simp [Region.display, RegionKind.isVerbatim]
  | squareSpan _ => exact dollars _
  | parenSpan _ => exact dollars _
  | degree _ _ => exact dollars _
  | token _ => exact dollars _
  | blankLine _ _ _ => simp

theorem filled (replaced : stage.Replaces before text regions after) :
    Piece.join regions ≠ [] ∨ (regions = [] ∧ StartsLine before) := by
  have block (newline indent body : List Char) (previous next : Option Char) :
      Piece.join (displayBlock newline indent body previous next) ≠ [] := by
    simp [displayBlock, Region.display]
  cases replaced with
  | squares _ _ => exact .inl (block _ _ _ _ _)
  | squareLines _ _ _ _ _ => exact .inl (block _ _ _ _ _)
  | parens _ => exact .inl (by simp [Region.dollars])
  | padded _ _ => exact .inl (by simp [Region.dollars])
  | environment _ _ _ => exact .inl (block _ _ _ _ _)
  | hangingEnvironment _ _ indented _ => exact .inl (by simp [Region.outside, indented])
  | formula _ _ _ _ _ => exact .inl (by simp [Region.display])
  | squareSpan _ => exact .inl (by simp [Region.dollars])
  | parenSpan _ => exact .inl (by simp [Region.dollars])
  | degree _ _ => exact .inl (by simp [Region.dollars])
  | token _ => exact .inl (by simp [Region.dollars])
  | blankLine _ starts _ => exact .inr ⟨rfl, starts⟩

end Stage.Replaces

theorem sealed_plain {regions : List Region} {rest : Painted}
    (plain : ∀ region ∈ regions, region.kind.isVerbatim = false) (later : Sealed false rest) :
    Sealed false (Piece.paint regions ++ rest) := by
  induction regions with
  | nil => exact later
  | cons region regions ih =>
      have own := plain region (by simp)
      have others := ih fun other member => plain other (List.mem_cons_of_mem _ member)
      rw [Piece.paint_cons, List.append_assoc]
      by_cases filled : region.text = []
      · simpa [filled] using others
      · exact Sealed.append_piece (by simp) (by simp [own]) filled others

namespace Painted

def verbatim (painted : Painted) : List Region :=
  (Piece.ofPaint painted).filter (·.kind.isVerbatim)

def firstKind (painted : Painted) : Option RegionKind :=
  painted.head?.map Prod.snd

theorem firstKind_ofPaint (painted : Painted) :
    (Piece.ofPaint painted).head?.map Piece.kind = painted.firstKind := by
  cases painted with
  | nil => rfl
  | cons stroke painted =>
      obtain ⟨char, kind⟩ := stroke
      rw [Piece.ofPaint_cons]
      cases Piece.ofPaint painted with
      | nil => rfl
      | cons next rest =>
          by_cases same : kind = next.kind
          · simp [Piece.attach, same, firstKind]
          · simp [Piece.attach, same, firstKind]

theorem verbatim_cons_plain {kind : RegionKind} (plain : kind.isVerbatim = false) (char : Char)
    (painted : Painted) : verbatim ((char, kind) :: painted) = verbatim painted := by
  unfold verbatim
  rw [Piece.ofPaint_cons]
  cases Piece.ofPaint painted with
  | nil => simp [Piece.attach, plain]
  | cons next rest =>
      by_cases same : kind = next.kind
      · subst same
        simp [Piece.attach, plain]
      · simp [Piece.attach, same, plain]

theorem verbatim_cons {kind : RegionKind} (kept : kind.isVerbatim = true) (char : Char)
    (painted : Painted) :
    verbatim ((char, kind) :: painted) =
      if painted.firstKind = some kind then
        (verbatim painted).modifyHead fun next => ⟨kind, char :: next.text⟩
      else ⟨kind, [char]⟩ :: verbatim painted := by
  unfold verbatim
  rw [Piece.ofPaint_cons, ← firstKind_ofPaint]
  cases Piece.ofPaint painted with
  | nil => simp [Piece.attach, kept]
  | cons next rest =>
      by_cases same : kind = next.kind
      · subst same
        simp [Piece.attach, kept]
      · simp [Piece.attach, same, Ne.symm same, kept]

theorem verbatim_append_plain {regions : List Region}
    (plain : ∀ region ∈ regions, region.kind.isVerbatim = false) (painted : Painted) :
    verbatim (Piece.paint regions ++ painted) = verbatim painted := by
  induction regions with
  | nil => rfl
  | cons region regions ih =>
      have own := plain region (by simp)
      rw [Piece.paint_cons, List.append_assoc,
        ← ih fun other member => plain other (List.mem_cons_of_mem _ member)]
      induction region.text with
      | nil => rfl
      | cons char text ihText =>
          rw [List.map_cons, List.cons_append, verbatim_cons_plain own, ihText]

theorem firstKind_append_plain {regions : List Region} (filled : Piece.join regions ≠ [])
    (plain : ∀ region ∈ regions, region.kind.isVerbatim = false) (painted : Painted) :
    ∃ kind, firstKind (Piece.paint regions ++ painted) = some kind ∧ kind.isVerbatim = false := by
  have notNil : Piece.paint regions ≠ [] := by
    intro isNil
    rw [← text_paint, isNil] at filled
    exact filled rfl
  obtain ⟨stroke, strokes, paintEq⟩ := List.exists_cons_of_ne_nil notNil
  refine ⟨stroke.2, by rw [paintEq]; rfl, ?_⟩
  have member : stroke ∈ Piece.paint regions := by simp [paintEq]
  simp only [Piece.paint, List.mem_flatMap, List.mem_map] at member
  obtain ⟨region, inRegions, char, _, rfl⟩ := member
  exact plain region inRegions

end Painted

theorem Revised.verbatim {stage : Stage} {before after : Option Char} {held kept : Bool}
    {old new : Painted} (revised : Revised stage.Replaces after before old new)
    (whole : Sealed held old)
    (previous : kept = true → before ≠ none ∧ (before = some '\n' → held = true)) :
    new.verbatim = old.verbatim ∧ (kept = true → ∀ kind : RegionKind, kind.isVerbatim = true →
      (new.firstKind = some kind ↔ old.firstKind = some kind)) := by
  -- `kept` tells that code or a link goes up to here: what follows must then go on in it as before.
  induction revised generalizing held kept with
  | nil => exact ⟨rfl, fun _ _ _ => Iff.rfl⟩
  | @keep before char kind old new _ ih =>
      obtain ⟨same, first⟩ := @ih _ kind.isVerbatim whole.2 fun verbatim =>
        ⟨by simp, fun feed => by simp_all⟩
      refine ⟨?_, fun _ _ _ => Iff.rfl⟩
      cases verbatim : kind.isVerbatim with
      | false =>
          rw [Painted.verbatim_cons_plain verbatim, Painted.verbatim_cons_plain verbatim, same]
      | true =>
          rw [Painted.verbatim_cons verbatim, Painted.verbatim_cons verbatim, same]
          simp only [first verbatim kind verbatim]
  | @replace before text regions old new filled replaced _ ih =>
      obtain ⟨rfl, later⟩ := whole.drop_outside filled
      obtain ⟨same, _⟩ := @ih _ false later (by simp)
      have gone : (Painted.outside text ++ old).verbatim = old.verbatim := by
        have plain := @Painted.verbatim_append_plain [Region.outside text]
          (by simp [Region.outside, RegionKind.isVerbatim]) old
        rwa [Painted.paint_outside] at plain
      refine ⟨by rw [Painted.verbatim_append_plain replaced.plain, same, gone], ?_⟩
      intro isKept kind verbatim
      obtain ⟨char, others, rfl⟩ := List.exists_cons_of_ne_nil filled
      rcases replaced.filled with filled | ⟨_, starts⟩
      · obtain ⟨own, ownEq, ownPlain⟩ := Painted.firstKind_append_plain filled replaced.plain new
        rw [ownEq]
        constructor
        · intro sameKind
          rw [Option.some.inj sameKind, verbatim] at ownPlain
          exact absurd ownPlain (by decide)
        · intro isOutside
          simp only [Painted.firstKind, Painted.outside_cons, List.cons_append, List.head?_cons,
            Option.map_some, Option.some.injEq] at isOutside
          rw [← isOutside] at verbatim
          exact absurd verbatim (by decide)
      · -- Nothing kept can stand right before a blank line.
        obtain ⟨present, feed⟩ := previous isKept
        rcases starts with absent | same
        · exact absurd absent present
        · exact absurd (feed same) (by decide)

theorem verbatim_paint {regions : List Region} (fused : Piece.IsFused regions) :
    Painted.verbatim (Piece.paint regions) = regions.filter (·.kind.isVerbatim) := by
  rw [Painted.verbatim, ← Piece.fuse_eq_ofPaint, Piece.fuse_eq_self fused]

theorem verbatim_convertedRegions (options : Options) (text : List Char) :
    (convertedRegions options text).filter (·.kind.isVerbatim) =
      (Document.regions text).filter (·.kind.isVerbatim) := by
  have fused := Document.isFused_regions text
  rw [← verbatim_paint (isFused_convertedRegions options text), ← verbatim_paint fused]
  refine (preserved_convertedRegions (motive := fun painted => Sealed false painted ∧
    painted.verbatim = Painted.verbatim (Piece.paint (Document.regions text))) ?_ ?_).2
  · intro stage _ old new revised kept
    refine ⟨revised.sealed (fun _ _ _ _ replaced _ _ => sealed_plain replaced.plain) kept.1, ?_⟩
    rw [← kept.2]
    exact (@Revised.verbatim _ _ _ _ false _ _ revised kept.1 (by simp)).1
  · exact ⟨Document.sealed_regions text, rfl⟩

/-- Frozen text survives a conversion: its runs stand in the result in order, the same code and
links are in the regions, and each stage carries the runs of any fused regions. -/
theorem weaves_convert (options : Options) (text : List Char) :
    Weaves (frozenRuns (Document.regions text)) (convert options text) ∧
      (convertedRegions options text).filter (·.kind.isVerbatim) =
        (Document.regions text).filter (·.kind.isVerbatim) ∧
      ∀ (stage : Stage) (regions : List Region),
        Weaves (frozenRuns (Piece.fuse regions)) (Piece.join (stage.run (Piece.fuse regions))) := by
  refine ⟨?_, verbatim_convertedRegions options text, fun stage regions => ?_⟩
  · rw [convert, ← Painted.text_paint]
    refine weaves_of_carries (Piece.isFused_fuse _) fun runs frozen carried => ?_
    exact preserved_convertedRegions (motive := Painted.Carries runs)
      (fun _ _ _ _ revised => revised.carries frozen) carried
  · exact stage.weaves_run (Piece.isFused_fuse _)

end DollarMath
