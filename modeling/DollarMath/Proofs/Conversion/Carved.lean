import DollarMath.Proofs.Conversion.Stretches
import DollarMath.Proofs.Document.Chunks

/-!
No address and no inline code stands outside, in a document and after any of its stages.
-/

namespace DollarMath

def Link.IsStart (text : List Char) : Prop :=
  ∃ first scheme next, text = first :: (scheme ++ [':', '/', '/', next]) ∧
    first.isAlpha = true ∧ (∀ char ∈ scheme, isSchemeChar char = true) ∧ isAddressChar next = true

def InlineCode.IsSpan (text : List Char) : Prop :=
  ∃ body, text = '\x60' :: (body ++ ['\x60']) ∧ body ≠ [] ∧
    ∀ char ∈ body, (char != '\x60' && !Text.isReturn char) = true

namespace Link

theorem not_isBlank_of_isSchemeChar {char : Char} (scheme : isSchemeChar char = true) :
    Text.isBlank char = false := by
  simp only [isSchemeChar, Bool.or_eq_true, beq_iff_eq] at scheme
  rcases scheme with ((alnum | rfl) | rfl) | rfl
  · exact Text.not_isBlank_of_isAlphanum alnum
  · decide
  · decide
  · decide

theorem IsStart.not_isBlank {text : List Char} (start : IsStart text) :
    ∀ char ∈ text, Text.isBlank char = false := by
  obtain ⟨first, scheme, next, rfl, letter, schemeChars, opens⟩ := start
  intro char member
  simp only [List.mem_cons, List.mem_append, List.not_mem_nil, or_false] at member
  rcases member with rfl | inScheme | rfl | rfl | rfl | rfl
  · exact Text.not_isBlank_of_isAlphanum (by simp [Char.isAlphanum, letter])
  · exact not_isBlank_of_isSchemeChar (schemeChars char inScheme)
  · decide
  · decide
  · decide
  · simp only [isAddressChar, Bool.and_eq_true, Bool.not_eq_true'] at opens
    exact opens.1

theorem afterScheme?_eq_some_iff {text rest : List Char} :
    afterScheme? text = some rest ↔ ∃ first scheme,
      text = first :: (scheme ++ ':' :: '/' :: '/' :: rest) ∧ first.isAlpha = true ∧
        ∀ char ∈ scheme, isSchemeChar char = true := by
  constructor
  · intro found
    unfold afterScheme? at found
    split at found
    next => simp at found
    next first tail =>
      split at found
      next letter =>
        have whole := List.takeWhile_append_dropWhile (p := isSchemeChar) (l := tail)
        rw [Text.afterWord?_eq_some found] at whole
        have own : ∀ char ∈ tail.takeWhile isSchemeChar, isSchemeChar char = true :=
          fun char member => List.mem_takeWhile_imp member
        generalize tail.takeWhile isSchemeChar = scheme at whole own
        subst whole
        exact ⟨first, scheme, rfl, letter, own⟩
      next => simp at found
  · rintro ⟨first, scheme, rfl, letter, schemeChars⟩
    rw [afterScheme?, if_pos letter, List.dropWhile_append_of_pos schemeChars,
      List.dropWhile_cons_of_neg (by decide)]
    simp [Text.afterWord?]

theorem finds_address : Text.Finds address IsStart := by
  refine ⟨?_, ?_, ?_⟩
  · intro before text
    constructor
    · intro found
      unfold address at found
      split at found
      next => simp at found
      next rest opened =>
        dsimp only at found
        split at found
        next => simp at found
        next isCode =>
          obtain ⟨first, scheme, rfl, letter, schemeChars⟩ := afterScheme?_eq_some_iff.mp opened
          cases rest with
          | nil => simp at isCode
          | cons next rest =>
              have opens : isAddressChar next = true := by
                by_contra closed
                simp [closed] at isCode
              exact ⟨_, ⟨first, scheme, next, rfl, letter, schemeChars, opens⟩, rest, by simp⟩
    · rintro ⟨_, ⟨first, scheme, next, rfl, letter, schemeChars, opens⟩, rest, rfl⟩
      have opened : afterScheme? (first :: (scheme ++ [':', '/', '/', next]) ++ rest) =
          some (next :: rest) :=
        afterScheme?_eq_some_iff.mpr ⟨first, scheme, by simp, letter, schemeChars⟩
      rw [address, opened]
      simp [opens]
  · rintro _ ⟨first, scheme, next, rfl, _⟩
    simp
  · intro find start char member
    by_contra ret
    have blank := Text.isBlank_of_isReturn (by simpa using ret)
    rw [start.not_isBlank char member] at blank
    exact absurd blank (by decide)

end Link

namespace InlineCode

theorem exists_isSpan {previous : Option Char} {text : List Char} {size : Nat}
    (found : span previous text = some (size, ())) :
    ∃ taken left, text = taken ++ left ∧ IsSpan taken ∧ size = taken.length := by
  obtain ⟨body, left, textEq, sizeEq, filled, own⟩ := exists_body found
  exact ⟨_, left, textEq, ⟨body, rfl, filled, own⟩, by simp [sizeEq]⟩

theorem span_of_isSpan {taken : List Char} (isSpan : IsSpan taken) (previous : Option Char)
    (left : List Char) : span previous (taken ++ left) = some (taken.length, ()) := by
  obtain ⟨body, rfl, filled, own⟩ := isSpan
  rw [span_of_body filled own]
  simp

theorem finds_span : Text.Finds span IsSpan := by
  refine ⟨fun before text => ⟨fun isFind => ?_, ?_⟩, ?_, ?_⟩
  · obtain ⟨⟨size, _⟩, found⟩ := Option.isSome_iff_exists.mp isFind
    obtain ⟨taken, left, textEq, isSpan, _⟩ := exists_isSpan found
    exact ⟨taken, isSpan, left, textEq.symm⟩
  · rintro ⟨taken, isSpan, left, rfl⟩
    rw [span_of_isSpan isSpan]
    rfl
  · rintro _ ⟨body, rfl, _⟩
    simp
  · rintro _ ⟨body, rfl, _, own⟩ char member
    simp only [List.mem_cons, List.mem_append, List.not_mem_nil, or_false] at member
    rcases member with rfl | inBody | rfl
    · decide
    · have free := own char inBody
      simp only [Bool.and_eq_true, Bool.not_eq_true'] at free
      exact free.2
    · decide

end InlineCode

namespace Painted

variable {recognize : Text.Recognizer Unit} {IsFind : List Char → Prop}

theorem Lacks.of_walls {painted : Painted} (finds : Text.Finds recognize IsFind)
    (walls : ∀ stroke ∈ painted, IsWall stroke) : painted.Lacks IsFind := by
  refine ⟨fun find isFind found => ?_⟩
  obtain ⟨char, rest, rfl⟩ := List.exists_cons_of_ne_nil (finds.nonempty find isFind)
  have inPainted : (char, RegionKind.outside) ∈ painted := found.subset (by simp)
  exact finds.not_mem (walls _ inPainted) _ isFind (by simp)

theorem infix_paint {regions : List Region} {region : Region} (member : region ∈ regions)
    (free : region.isOutside = true) {find : List Char} (inText : find <:+: region.text) :
    outside find <:+: Piece.paint regions := by
  obtain ⟨front, back, rfl⟩ := List.append_of_mem member
  have own : outside find <:+: outside region.text := inText.map _
  rw [Piece.paint_append, Piece.paint_eq_append region back, paint_of_isOutside free]
  exact own.trans ⟨_, _, List.append_assoc _ _ _⟩

theorem not_mem_outside {frozen : Painted} (isFrozen : ∀ stroke ∈ frozen, stroke.2 ≠ .outside)
    (text : List Char) : ∀ stroke ∈ frozen, stroke ∉ outside text := by
  intro stroke member inText
  obtain ⟨char, _, rfl⟩ := List.mem_map.mp inText
  exact isFrozen _ member rfl

theorem Lacks.frozen_append {frozen painted : Painted} (filled : ∀ find, IsFind find → find ≠ [])
    (isFrozen : ∀ stroke ∈ frozen, stroke.2 ≠ .outside) (lacks : painted.Lacks IsFind) :
    Lacks IsFind (frozen ++ painted) := by
  by_cases empty : frozen = []
  · rwa [empty]
  · exact Lacks.append (lacks_nil filled) lacks empty fun find _ => not_mem_outside isFrozen find

theorem Lacks.append_frozen {first frozen second : Painted} (left : first.Lacks IsFind)
    (right : Lacks IsFind (frozen ++ second)) (notNil : frozen ≠ [])
    (isFrozen : ∀ stroke ∈ frozen, stroke.2 ≠ .outside) :
    Lacks IsFind (first ++ (frozen ++ second)) :=
  left.append (right.of_isInfix (List.suffix_append _ _).isInfix) notNil
    fun find _ => not_mem_outside isFrozen find

/-- Marking keeps the text, and no find is left outside. -/
theorem lacks_marking (finds : Text.Finds recognize IsFind) {kind : RegionKind}
    (frozen : kind ≠ .outside) (before : Option Char) (text : List Char) (after : Option Char) :
    Painted.text (Piece.paint (marking recognize kind before text after)) = text ∧
      Lacks IsFind (Piece.paint (marking recognize kind before text after)) := by
  unfold marking substitution
  generalize (none : Option Char) = previous
  fun_induction Text.scan recognize previous text with
  | case1 => exact ⟨rfl, lacks_nil finds.nonempty⟩
  | case2 previous char rest missed ih =>
      obtain ⟨same, absent⟩ := ih
      rw [List.flatMap_cons, Piece.paint_append]
      generalize Piece.paint (List.flatMap _ _) = painted at same absent ⊢
      change text ((char, .outside) :: painted) = char :: rest ∧
        Lacks IsFind ((char, .outside) :: painted)
      have spelled : text ((char, .outside) :: painted) = char :: rest := by rw [text_cons, same]
      refine ⟨spelled, ⟨fun find isFind found => ?_⟩⟩
      rcases List.infix_cons_iff.mp found with start | later
      · -- A find that starts here is read in the text, as marking keeps it.
        have inText : text (outside find) <+: text ((char, .outside) :: painted) :=
          start.map Prod.fst
        rw [text_outside, spelled] at inText
        have read := (finds.isSome_iff previous (char :: rest)).mpr ⟨find, isFind, inText⟩
        simp [missed] at read
      · exact absent.absent find isFind later
  | case3 previous char rest size value _ taken left ih =>
      obtain ⟨same, absent⟩ := ih
      rw [List.flatMap_cons, Piece.paint_append, text_append, text_paint, same]
      refine ⟨by simp [taken, left], absent.frozen_append finds.nonempty (by simp [frozen])⟩

/-- If text outside is revised so that no find is left in it, none is left anywhere, as what is
frozen stands between two such texts. -/
theorem lacks_reviseOutside (nonempty : ∀ find, IsFind find → find ≠ []) {revise : Revision}
    (clears : ∀ before text after, Lacks IsFind (Piece.paint (revise before text after)))
    {regions : List Region} (fused : Piece.IsFused regions) :
    Lacks IsFind (Piece.paint (reviseOutside revise regions)) := by
  rw [reviseOutside, Piece.paint_fuse]
  generalize (none : Option Char) = before
  induction regions generalizing before with
  | nil => exact lacks_nil nonempty
  | cons region regions ih =>
      have rest := ih fused.tail region.text.getLast?
      rw [reviseOutsideAfter, Piece.paint_append]
      by_cases free : region.isOutside = true
      · have filled := fused.nonempty region (by simp)
        rw [if_pos (by simp [free]), List.headD_nil, reviseAround,
          if_neg (by simpa using filled)]
        cases regions with
        | nil =>
            have own := clears before region.text (firstOf [])
            simpa [reviseOutsideAfter] using own
        | cons next regions =>
            have differ := (List.isChain_cons_cons.mp fused.differ).1
            rw [Piece.isOutside_iff.mp free] at differ
            have frozen : next.kind ≠ .outside := fun same => differ same.symm
            have nextFilled := fused.nonempty next (by simp)
            rw [reviseOutsideAfter, if_neg (by simp [Piece.isOutside, frozen]),
              Piece.paint_append] at rest ⊢
            exact (clears _ _ _).append_frozen rest (by simpa using nextFilled)
              (frozen_paint frozen)
      · have frozen : region.kind ≠ .outside := fun same => free (Piece.isOutside_iff.mpr same)
        rw [if_neg (by simp [free])]
        exact rest.frozen_append nonempty (frozen_paint frozen)

end Painted

namespace Link

theorem IsStart.not_mem {find : List Char} (start : IsStart find) {stroke : Char × RegionKind}
    (blank : Text.isBlank stroke.1 = true) : stroke ∉ Painted.outside find := by
  intro member
  obtain ⟨char, inFind, rfl⟩ := List.mem_map.mp member
  rw [start.not_isBlank char inFind] at blank
  exact absurd blank (by decide)

theorem lacks_freezeLine (line : List Char) :
    Painted.text (Piece.paint (freezeLine line)) = line ∧
      Painted.Lacks IsStart (Piece.paint (freezeLine line)) := by
  unfold freezeLine
  dsimp only
  split
  next =>
    have same := Text.lineBody_append_lineReturn line
    refine ⟨by simpa [Region.link, Region.outside] using same, ?_⟩
    rw [Piece.paint_eq_append]
    refine Painted.Lacks.frozen_append finds_address.nonempty
      (Painted.frozen_paint (by simp [Region.link])) ?_
    refine .of_walls finds_address fun stroke member _ => ?_
    rw [Painted.paint_outside] at member
    obtain ⟨char, inReturn, rfl⟩ := List.mem_map.mp member
    exact Text.isReturn_of_mem_lineReturn inReturn
  next => exact Painted.lacks_marking finds_address (by decide) none line none

theorem lacks_freezeLines (text : List Char) :
    Painted.Lacks IsStart (Piece.paint ((Text.lines text).flatMap freezeLine)) := by
  have areLines := Text.areLines_lines text
  generalize Text.lines text = lines at areLines
  induction lines with
  | nil => exact Painted.lacks_nil finds_address.nonempty
  | cons line lines ih =>
      rw [List.flatMap_cons, Piece.paint_append]
      obtain ⟨same, own⟩ := lacks_freezeLine line
      have rest := ih areLines.tail
      cases lines with
      | nil => simpa using own
      | cons next lines =>
          -- The line break at the end of the line stands in no address.
          obtain ⟨broken, _⟩ := List.isChain_cons_cons.mp areLines.broken
          obtain ⟨last, lastEq, isBreak⟩ := broken.ended
          generalize Piece.paint (freezeLine line) = painted at same own
          obtain rfl | ⟨front, stroke, rfl⟩ := List.eq_nil_or_concat' painted
          · simp [← same] at lastEq
          · have lastStroke : stroke.1 = last := by
              simpa [← same, Painted.text] using lastEq
            rw [List.append_assoc]
            refine (own.of_isInfix (List.prefix_append _ _).isInfix).append rest (by simp) ?_
            intro find start wall member
            rw [List.mem_singleton.mp member]
            exact start.not_mem (lastStroke ▸ Text.isBlank_of_isLineBreak isBreak)

end Link

namespace Document

/-- The regions that a document is cut into, and those that a stage is given: fused, and without an
address or inline code outside. -/
structure IsCarved (regions : List Region) : Prop where
  fused : Piece.IsFused regions
  addresses : ∀ region ∈ regions, region.isOutside = true →
    Text.findAll Link.address region.text = []
  codeSpans : ∀ region ∈ regions, region.isOutside = true →
    Text.findAll InlineCode.span region.text = []

structure IsClear (painted : Painted) : Prop where
  addresses : painted.Lacks Link.IsStart
  codeSpans : painted.Lacks InlineCode.IsSpan

namespace IsClear

theorem revised {replaces : Replacement} {before after : Option Char} {old new : Painted}
    (clear : IsClear old) (walled : Walled replaces)
    (revised : Revised replaces after before old new) : IsClear new :=
  ⟨revised.lacks walled Link.finds_address clear.addresses,
    revised.lacks walled InlineCode.finds_span clear.codeSpans⟩

theorem append_frozen {first frozen second : Painted} (left : IsClear first)
    (right : IsClear second) (notNil : frozen ≠ [])
    (isFrozen : ∀ stroke ∈ frozen, stroke.2 ≠ .outside) :
    IsClear (first ++ (frozen ++ second)) := by
  constructor
  · refine left.addresses.append right.addresses notNil ?_
    intro find isFind stroke member
    exact Link.finds_address.not_mem (fun free => absurd free (isFrozen stroke member)) find isFind
  · refine left.codeSpans.append right.codeSpans notNil ?_
    intro find isFind stroke member
    exact InlineCode.finds_span.not_mem (fun free => absurd free (isFrozen stroke member)) find
      isFind

theorem isCarved {regions : List Region} (clear : IsClear (Piece.paint regions))
    (fused : Piece.IsFused regions) : IsCarved regions := by
  refine ⟨fused, fun region member free => ?_, fun region member free => ?_⟩
  · refine Link.finds_address.findAll_eq_nil fun find isFind inText => ?_
    exact clear.addresses.absent find isFind (Painted.infix_paint member free inText)
  · refine InlineCode.finds_span.findAll_eq_nil fun find isFind inText => ?_
    exact clear.codeSpans.absent find isFind (Painted.infix_paint member free inText)

end IsClear

theorem clear_proseRegions (text : List Char) : IsClear (Piece.paint (proseRegions text)) := by
  by_cases empty : text = []
  · have unpainted : Piece.paint (proseRegions text) = [] := by
      have spelled := join_proseRegions text
      rw [empty, ← Painted.text_paint] at spelled
      rw [empty]
      exact List.map_eq_nil_iff.mp spelled
    rw [unpainted]
    exact ⟨Painted.lacks_nil Link.finds_address.nonempty,
      Painted.lacks_nil InlineCode.finds_span.nonempty⟩
  · by_cases blob : Link.isBlob (Text.strip text) = true
    · have frozen : (Region.link text).kind ≠ .outside := by simp [Region.link]
      have walls := isWall_of_isFrozen frozen
      rw [proseRegions, if_pos blob]
      exact ⟨.of_walls Link.finds_address walls, .of_walls InlineCode.finds_span walls⟩
    · have filled : Piece.IsFused [Region.outside text] := Piece.isFused_single empty
      have codes : Painted.Lacks InlineCode.IsSpan
          (Piece.paint (InlineCode.split [Region.outside text])) :=
        Painted.lacks_reviseOutside InlineCode.finds_span.nonempty
          (fun before text after =>
            (Painted.lacks_marking InlineCode.finds_span (by decide) before text after).2) filled
      have links : MarkedTo (Piece.paint (InlineCode.split [Region.outside text]))
          (Piece.paint (Link.freeze (InlineCode.split [Region.outside text]))) :=
        marked_reviseOutside Link.follows_freezeLines (Piece.isFused_fuse _).nonempty
      have clear : IsClear (Piece.paint (Link.freeze (InlineCode.split [Region.outside text]))) :=
        ⟨Painted.lacks_reviseOutside Link.finds_address.nonempty
            (fun _ text _ => Link.lacks_freezeLines text)
          (Piece.isFused_fuse _), links.lacks walled_marks InlineCode.finds_span codes⟩
      have displays := clear.revised walled_marks (DisplayMath.marked_split _)
      rw [proseRegions, if_neg blob]
      exact displays.revised walled_marks (marked_reviseOutside follows_inlineMath
        (DisplayMath.isFused_split (Piece.isFused_fuse _)).nonempty)

theorem clear_chunks {before : Option Char} (front : List Char) {parts : Fence.Parts}
    (framed : Fence.Framed before parts) :
    IsClear (Chunks.paint (Piece.paint (proseRegions front)) (Chunks.ofParts parts)) := by
  induction parts generalizing front before with
  | nil => simpa [Chunks.ofParts] using clear_proseRegions front
  | cons part parts ih =>
      obtain ⟨block, prose⟩ := part
      have filled := framed.2.1.ne_nil
      simp only [Chunks.ofParts, List.map_cons, Chunks.paint_cons]
      exact (clear_proseRegions front).append_frozen (ih prose framed.2.2.2) (by simpa using filled)
        (by simp)

theorem clear_regions (text : List Char) : IsClear (Piece.paint (regions text)) := by
  obtain ⟨front, parts, _, framed, painted⟩ := exists_chunks text
  rw [painted]
  exact clear_chunks front framed

end Document

/-- Every stage is given a document whose addresses and inline code are all frozen: it is carved
when the regions are cut, and still after any number of the enabled stages. -/
theorem carved_stages (options : Options) (text : List Char) (count : Nat) :
    Document.IsCarved (((Stage.enabled options).take count).foldl
      (fun regions stage => stage.run regions) (Document.regions text)) := by
  obtain ⟨fused, clear⟩ := preserved_foldl (motive := Document.IsClear)
    (fun stage (_ : stage ∈ (Stage.enabled options).take count) _ _ revised clear =>
      clear.revised stage.walled revised)
    (Piece.isFused_fuse _) (Document.clear_regions text)
  exact clear.isCarved fused

end DollarMath
