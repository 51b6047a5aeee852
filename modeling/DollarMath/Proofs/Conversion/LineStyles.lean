import DollarMath.Proofs.Conversion.WithReturns

/-!
Whether a conversion makes the same of a document with a carriage return before every line feed as
of the document without.
-/

namespace DollarMath

def Text.Found.next? {α : Type} : Text.Found α → Option Char
  | .gap _ => none
  | .hit _ _ _ after => after

namespace Delimiters

def afterSquares (regions : List Region) : List Region :=
  reviseOutside (substitution escapedSquares (toDisplay (lineEnding (Piece.join regions)))) regions

/-- Whether brackets on lines of their own close right before a line feed. -/
def closesAtFeed (regions : List Region) : Bool :=
  (afterSquares regions).any fun region =>
    region.isOutside && (Text.scan bracketLines none region.text).any (·.next? == some '\n')

theorem normalize_withReturns {regions : List Region} (fused : Piece.IsFused regions)
    (free : '\r' ∉ Piece.join regions) (feed : '\n' ∈ Piece.join regions)
    (apart : closesAtFeed regions = false) :
    normalize (regions.map Piece.withReturns) = (normalize regions).map Piece.withReturns := by
  have bare {old new : List Region} (pass : Passes (Stage.Writes ['\n'] .delimiters) old new)
      (oldFree : '\r' ∉ Piece.join old) : '\r' ∉ Piece.join new :=
    (pass.lined_writes (.inl rfl) (.of_free oldFree)).free
  have squares := passes_substitution (writes_escapedSquares (.inl rfl)) fused
  have lines := passes_substitution (writes_bracketLines (.inl rfl)) squares.fused
  have parens := passes_substitution (writes_escapedParens ['\n']) lines.fused
  have freeSquares := bare squares free
  have freeLines := bare lines freeSquares
  have freeParens := bare parens freeLines
  have closed : ∀ region ∈ reviseOutside (substitution escapedSquares (toDisplay ['\n'])) regions,
      region.isOutside = true → ∀ found ∈ Text.scan bracketLines none region.text,
        found.Meets fun _ _ next => next ≠ some '\n' := by
    intro region member outside found inText
    rw [closesAtFeed, afterSquares, Text.lineEnding_of_noReturn free, List.any_eq_false] at apart
    have noFeeds := apart region member
    rw [outside, Bool.true_and, Bool.not_eq_true, List.any_eq_false] at noFeeds
    have own := noFeeds found inText
    cases found with
    | gap _ => trivial
    | hit _ _ _ next =>
        have other : next ≠ some '\n' := by simpa [Text.Found.next?] using own
        exact other
  unfold normalize
  dsimp only
  rw [Piece.join_withReturns, Text.lineEnding_withReturns free feed,
    Text.lineEnding_of_noReturn free,
    reviseOutside_substitution keeps_escapedSquares (carries_toDisplay _) free
      fun _ _ _ found _ => found.meets_true,
    reviseOutside_substitution keeps_bracketLines (carries_toDisplayAtLine _) freeSquares closed,
    reviseOutside_substitution keeps_escapedParens (carries_toInline _) freeLines
      fun _ _ _ found _ => found.meets_true,
    reviseOutside_substitution keeps_paddedDollars (carries_toInline _) freeParens
      fun _ _ _ found _ => found.meets_true]

end Delimiters

theorem Environments.wrap_withReturns {regions : List Region} (free : '\r' ∉ Piece.join regions)
    (feed : '\n' ∈ Piece.join regions) :
    wrap (regions.map Piece.withReturns) = (wrap regions).map Piece.withReturns := by
  have keeps := keeps_environment
  unfold wrap
  dsimp only
  rw [Piece.join_withReturns, Text.lineEnding_withReturns free feed,
    Text.lineEnding_of_noReturn free]
  refine reviseOutside_substitution (keeps.weaken fun _ _ _ _ => trivial) carries_toDisplay free ?_
  intro region _ _
  exact Text.meets_scan keeps.takes (fun _ _ _ _ found => indented_of_environment found) _ _

theorem Line.flatMap_text_ofRegions (regions : List Region) :
    (ofRegions regions).flatMap text = Piece.join regions := by
  have all := flatMap_fragments_group (Fragment.ofRegions 0 regions)
  have spelled := Fragment.flatMap_text_ofRegions 0 regions
  rw [← all, List.flatMap_assoc] at spelled
  exact spelled

namespace BlankLines

theorem not_mem_strip_content {line : Line} (free : '\r' ∉ line.text) :
    '\r' ∉ Text.strip line.content := by
  intro member
  have inContent := (Text.strip_isInfix _).subset member
  have whole := Text.lineBody_append_lineReturn line.text
  rw [← whole] at free
  exact free (List.mem_append_left _ inContent)

section Lines

variable (texts : Nat → List Char)

theorem opensDisplay_withReturns {line : Line} (free : '\r' ∉ line.text) :
    opensDisplay (line.withReturns texts) = opensDisplay line := by
  have bare := not_mem_strip_content free
  rw [opensDisplay, Line.firstVisible?_withReturns, Line.content_withReturns,
    Text.strip_withReturns, startsWithDollars, Text.isPrefixOf_withReturns (by decide) bare,
    Option.any_map]
  rfl

theorem closesDisplay_withReturns {line : Line} (free : '\r' ∉ line.text) :
    closesDisplay (line.withReturns texts) = closesDisplay line := by
  have bare := not_mem_strip_content free
  rw [closesDisplay, Line.lastVisible?_withReturns, Line.content_withReturns,
    Text.strip_withReturns, endsWithDollars, Text.isSuffixOf_withReturns (by decide) bare,
    Option.any_map]
  rfl

theorem isLoneBlank_withReturns (line : Line) (neighbour : Option Line) :
    isLoneBlank (line.withReturns texts) (neighbour.map (Line.withReturns texts)) =
      isLoneBlank line neighbour := by
  rw [isLoneBlank, Line.isBlank_withReturns, Line.isOutside_withReturns, Option.any_map]
  simp only [Line.isBlank_withReturns]
  rfl

theorem isDropped_withReturns {above below : Option Line} (line : Line)
    (freeAbove : above.all fun other => !other.text.contains '\r')
    (freeBelow : below.all fun other => !other.text.contains '\r') :
    isDropped (above.map (Line.withReturns texts)) (line.withReturns texts)
        (below.map (Line.withReturns texts)) = isDropped above line below := by
  have opens : (below.map (Line.withReturns texts)).any opensDisplay = below.any opensDisplay := by
    cases below with
    | none => rfl
    | some other => exact opensDisplay_withReturns texts (by simpa using freeBelow)
  have closes : (above.map (Line.withReturns texts)).any closesDisplay =
      above.any closesDisplay := by
    cases above with
    | none => rfl
    | some other => exact closesDisplay_withReturns texts (by simpa using freeAbove)
  rw [isDropped, opens, closes, isLoneBlank_withReturns, isLoneBlank_withReturns, isDropped]

theorem editsFrom_withReturns {above : Option Line} {lines : List Line}
    (freeAbove : above.all fun other => !other.text.contains '\r')
    (free : ∀ line ∈ lines, '\r' ∉ line.text) :
    editsFrom (above.map (Line.withReturns texts)) (lines.map (Line.withReturns texts)) =
      (editsFrom above lines).map (Edit.placed texts) := by
  induction lines generalizing above with
  | nil => rfl
  | cons line lines ih =>
      have own : '\r' ∉ line.text := free line (by simp)
      have later : editsFrom (some (line.withReturns texts)) (lines.map (Line.withReturns texts)) =
          (editsFrom (some line) lines).map (Edit.placed texts) :=
        @ih (some line) (by simpa using own) fun other member => free other (by simp [member])
      have freeBelow : lines.head?.all fun other => !other.text.contains '\r' := by
        cases lines with
        | nil => rfl
        | cons next lines => simpa using free next (by simp)
      rw [List.map_cons, editsFrom, editsFrom, List.map_append, later, List.head?_map,
        isDropped_withReturns texts line freeAbove freeBelow]
      congr 1
      split
      · rw [Line.withReturns, List.map_map, List.map_map]
        rfl
      · rfl

end Lines

theorem normalize_withReturns {regions : List Region} (fused : Piece.IsFused regions)
    (free : '\r' ∉ Piece.join regions) :
    normalize (regions.map Piece.withReturns) = (normalize regions).map Piece.withReturns := by
  let texts : Nat → List Char := fun index => (regions[index]?.map Piece.text).getD []
  have textEq : ∀ place region, regions[place]? = some region → texts place = region.text := by
    intro place region found
    simp [texts, found]
  have lineFree : ∀ line ∈ Line.ofRegions regions, '\r' ∉ line.text := by
    intro line member inside
    rw [← Line.flatMap_text_ofRegions] at free
    exact free (List.mem_flatMap.mpr ⟨line, member, inside⟩)
  have edits : editsFrom none ((Line.ofRegions regions).map (Line.withReturns texts)) =
      (editsFrom none (Line.ofRegions regions)).map (Edit.placed texts) :=
    @editsFrom_withReturns texts none _ rfl lineFree
  rw [normalize, Line.ofRegions_withReturns textEq, edits]
  refine EditTable.apply_withReturns textEq ?_
  intro place region edit found member
  obtain ⟨before, after, whole, length⟩ : ∃ before after,
      regions = before ++ region :: after ∧ before.length = place := by
    obtain ⟨bound, same⟩ := List.getElem?_eq_some_iff.mp found
    refine ⟨regions.take place, regions.drop (place + 1), ?_, by simp; omega⟩
    rw [← same, ← List.drop_eq_getElem_cons bound, List.take_append_drop]
  rw [← length] at member
  obtain ⟨_, fits⟩ := fits_of_mem_editsFrom fused whole member
  have inside := fits.inside
  exact ⟨by omega, inside.2⟩

end BlankLines

/-- A stage that writes line ends leaves some in a document that has some. -/
theorem feed_run {stage : Stage} (writer : stage ∈ Stage.writers) {regions : List Region}
    (fused : Piece.IsFused regions) (free : '\r' ∉ Piece.join regions)
    (feed : '\n' ∈ Piece.join regions) :
    '\r' ∉ Piece.join (stage.run regions) ∧ '\n' ∈ Piece.join (stage.run regions) := by
  have passes := Stage.writes_run (.inl rfl) writer fused (Text.lineEnding_of_noReturn free)
  have lined := (lined_run (.inl rfl) writer fused (.of_free free) (.inl rfl)).1
  refine ⟨lined.free, ?_⟩
  generalize stage.run regions = result at passes
  induction passes with
  | refl => exact feed
  | tail _ pass ih => exact pass.feed ih

theorem convert_withReturns {text : List Char} (free : '\r' ∉ text) (feed : '\n' ∈ text)
    (apart : Delimiters.closesAtFeed (Document.regions text) = false) :
    convert {} (Text.withReturns text) = Text.withReturns (convert {} text) := by
  have enabled : Stage.enabled {} = [.delimiters, .environments, .blankLines] := rfl
  have spelled := Document.join_regions text
  have fused := Document.isFused_regions text
  rw [convert, convertedRegions, Document.regions_withReturns free, convert, convertedRegions,
    enabled]
  generalize Document.regions text = regions at apart spelled fused
  subst spelled
  obtain ⟨freeDelimiters, feedDelimiters⟩ := @feed_run .delimiters (by decide) _ fused free feed
  have fusedDelimiters := Stage.isFused_run .delimiters fused
  obtain ⟨freeEnvironments, _⟩ :=
    @feed_run .environments (by decide) _ fusedDelimiters freeDelimiters feedDelimiters
  have fusedEnvironments := Stage.isFused_run .environments fusedDelimiters
  simp only [List.foldl_cons, List.foldl_nil, Stage.run] at *
  rw [Delimiters.normalize_withReturns fused free feed apart,
    Environments.wrap_withReturns freeDelimiters feedDelimiters,
    BlankLines.normalize_withReturns fusedEnvironments freeEnvironments, Piece.join_withReturns]

theorem convert_withReturns_square :
    '\r' ∉ "\\[x\\]\n[\ny\n]".toList ∧ '\n' ∈ "\\[x\\]\n[\ny\n]".toList ∧
      Delimiters.closesAtFeed (Document.regions "\\[x\\]\n[\ny\n]".toList) = false ∧
      convert {} (Text.withReturns "\\[x\\]\n[\ny\n]".toList) =
        Text.withReturns (convert {} "\\[x\\]\n[\ny\n]".toList) := by
  have apart :
      Delimiters.closesAtFeed (Document.regions "\\[x\\]\n[\ny\n]".toList) = false := by
    decide +kernel
  exact ⟨by decide, by decide, apart, convert_withReturns (by decide) (by decide) apart⟩

/-- With carriage returns the closing bracket is not read, and the text stays as it is. -/
theorem convert_withReturns_ne :
    '\r' ∉ "[\nx\n]\n".toList ∧ '\n' ∈ "[\nx\n]\n".toList ∧
      convert {} "[\nx\n]\n".toList = "$$\nx\n$$\n".toList ∧
      convert {} (Text.withReturns "[\nx\n]\n".toList) ≠
        Text.withReturns (convert {} "[\nx\n]\n".toList) := by
  decide +kernel

end DollarMath
