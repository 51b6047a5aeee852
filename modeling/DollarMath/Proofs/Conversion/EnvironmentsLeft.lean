import DollarMath.Proofs.Conversion.Carved
import DollarMath.Proofs.Conversion.FixedPoint
import DollarMath.Proofs.Conversion.WithReturns

/-!
Wrapping is complete: no environment is left outside in what it returns, whatever is nested in an
environment or crosses it. So there is nothing to wrap a second time.
-/

namespace DollarMath.Environments

def beginOf (name : List Char) : List Char :=
  ['\\', 'b', 'e', 'g', 'i', 'n', '{'] ++ name ++ ['}']

def IsEnvironment (text : List Char) : Prop :=
  ∃ name ∈ names, ∃ body, text = beginOf name ++ body ++ endOf name

def HoldsEnvironment (text : List Char) : Prop :=
  ∃ find, IsEnvironment find ∧ find <:+: text

theorem IsEnvironment.isCommand {text : List Char} (isEnvironment : IsEnvironment text) :
    IsCommand text := by
  obtain ⟨name, _, body, rfl⟩ := isEnvironment
  have whole : beginOf name ++ body ++ endOf name = '\\' :: (['b', 'e', 'g', 'i', 'n', '{'] ++ name ++
      ['}'] ++ body ++ ['\\', 'e', 'n', 'd', '{'] ++ name) ++ ['}'] := by
    simp [beginOf, endOf]
  exact whole ▸ isCommand_between _

theorem unclosed_names : ∀ name ∈ names, '}' ∉ name := by
  decide

theorem name_unique {name other text : List Char} (member : name ∈ names) (member' : other ∈ names)
    (starts : name ++ ['}'] <+: text) (starts' : other ++ ['}'] <+: text) : name = other := by
  have apart {first second : List Char} (named : second ∈ names)
      (within : first ++ ['}'] <+: second ++ ['}']) : first = second := by
    rcases List.prefix_concat_iff.mp within with same | inside
    · exact List.append_cancel_right same
    · exact absurd (inside.subset (by simp)) (unclosed_names second named)
  rcases List.prefix_or_prefix_of_prefix starts starts' with within | within
  · exact apart member' within
  · exact (apart member within).symm

theorem afterBegin?_beginOf {name : List Char} (member : name ∈ names) (rest : List Char) :
    afterBegin? (beginOf name ++ rest) = some (name, rest) := by
  have opened : Text.afterWord? ['\\', 'b', 'e', 'g', 'i', 'n', '{'] (beginOf name ++ rest) =
      some (name ++ ['}'] ++ rest) := by
    simp [Text.afterWord?, beginOf]
  rw [afterBegin?, opened, Option.bind_some]
  obtain ⟨⟨other, after⟩, found⟩ : ∃ begun, names.findSome? (fun name' =>
      (Text.afterWord? (name' ++ ['}']) (name ++ ['}'] ++ rest)).map fun after => (name', after)) =
        some begun :=
    Option.isSome_iff_exists.mp (List.findSome?_isSome_iff.mpr
      ⟨name, member, by simp [Text.afterWord?]⟩)
  obtain ⟨_, named, read⟩ := List.exists_of_findSome?_eq_some found
  obtain ⟨left, word, same⟩ := Option.map_eq_some_iff.mp read
  obtain ⟨rfl, rfl⟩ := Prod.mk.inj same
  have whole := Text.afterWord?_eq_some word
  obtain rfl := name_unique member named ⟨rest, rfl⟩ ⟨_, whole.symm⟩
  rw [found, List.append_cancel_left whole]

theorem isSome_afterEnvironment?_iff {text : List Char} :
    (afterEnvironment? text).isSome = true ↔ ∃ find, IsEnvironment find ∧ find <+: text := by
  constructor
  · intro found
    obtain ⟨rest, after⟩ := Option.isSome_iff_exists.mp found
    obtain ⟨⟨name, inside⟩, begun, closed⟩ := Option.bind_eq_some_iff.mp after
    obtain ⟨opened, starts, named⟩ := Option.bind_eq_some_iff.mp begun
    obtain ⟨other, member, read⟩ := List.exists_of_findSome?_eq_some named
    obtain ⟨left, word, same⟩ := Option.map_eq_some_iff.mp read
    obtain ⟨rfl, rfl⟩ := Prod.mk.inj same
    obtain ⟨⟨body, back⟩, split, rfl⟩ := Option.map_eq_some_iff.mp closed
    refine ⟨_, ⟨other, member, body, rfl⟩, back, ?_⟩
    have leftEq := Text.splitAtFirst?_eq_some split
    dsimp only at leftEq
    rw [Text.afterWord?_eq_some starts, Text.afterWord?_eq_some word, leftEq]
    simp [beginOf]
  · rintro ⟨_, ⟨name, member, body, rfl⟩, back, rfl⟩
    have ends : (Text.splitAtFirst? (endOf name) (body ++ endOf name ++ back)).isSome = true :=
      Text.isSome_splitAtFirst?_iff.mpr ⟨body, back, rfl⟩
    rw [afterEnvironment?, List.append_assoc, List.append_assoc, afterBegin?_beginOf member,
      Option.bind_some, Option.isSome_map, ← List.append_assoc]
    exact ends

theorem isSome_environment {find text : List Char} (isEnvironment : IsEnvironment find)
    (starts : find <+: text) (before : Option Char) : (environment before text).isSome = true := by
  have first := isEnvironment.isCommand.first
  obtain ⟨rest, rfl⟩ := starts
  obtain ⟨tail, rfl⟩ := List.head?_eq_some_iff.mp first
  have bare : indentOf before ('\\' :: tail ++ rest) = [] := by
    unfold indentOf
    split
    · rfl
    · exact List.takeWhile_cons_of_neg (by decide)
  rw [environment_eq, bare, Option.isSome_map, List.length_nil, List.drop_zero]
  exact isSome_afterEnvironment?_iff.mpr ⟨_, isEnvironment, List.prefix_append _ _⟩

theorem findAll_environment_eq_nil_iff {text : List Char} :
    Text.findAll environment text = [] ↔ ¬ HoldsEnvironment text := by
  unfold Text.findAll HoldsEnvironment
  generalize (none : Option Char) = before
  fun_induction Text.scan environment before text with
  | case1 =>
      simp only [List.filterMap_nil, List.infix_nil, true_iff, not_exists, not_and]
      rintro find isEnvironment rfl
      exact isEnvironment.isCommand.isSolid.ne_nil rfl
  | case2 before char rest missed ih =>
      rw [List.filterMap_cons, Text.Found.hit?, ih, not_iff_not]
      refine exists_congr fun find => and_congr_right fun isEnvironment => ?_
      refine ⟨List.infix_cons, fun found => (List.infix_cons_iff.mp found).resolve_left ?_⟩
      intro starts
      have read := isSome_environment isEnvironment starts before
      simp [missed] at read
  | case3 before char rest size indent found _ _ _ =>
      rw [environment_eq] at found
      obtain ⟨left, after, _⟩ := Option.map_eq_some_iff.mp found
      obtain ⟨find, isEnvironment, starts⟩ := isSome_afterEnvironment?_iff.mp (by rw [after]; rfl)
      simp only [List.filterMap_cons, Text.Found.hit?, reduceCtorEq, false_iff, not_not]
      exact ⟨find, isEnvironment, starts.isInfix.trans (List.drop_suffix _ _).isInfix⟩

/-- Frozen text between blanks outside. -/
def Blocks (painted : Painted) : Prop :=
  ∃ lead block trail, painted = Painted.outside lead ++ (block ++ Painted.outside trail) ∧
    block ≠ [] ∧ (∀ stroke ∈ block, stroke.2 ≠ .outside) ∧
    (∀ char ∈ lead, Text.isBlank char = true) ∧ ∀ char ∈ trail, Text.isBlank char = true

theorem blocks_displayBlock {newline : List Char} (lineEnd : IsLineEnd newline)
    (indent body : List Char) (previous next : Option Char) :
    Blocks (Piece.paint (displayBlock newline indent body previous next)) := by
  have blank := isBlank_of_isLineEnd lineEnd
  have optional (added : Bool) : ∃ part,
      Piece.paint (if added then [Region.outside newline] else []) = Painted.outside part ∧
        ∀ char ∈ part, Text.isBlank char = true := by
    cases added with
    | true => exact ⟨newline, Painted.paint_outside newline, blank⟩
    | false => exact ⟨[], rfl, by simp⟩
  obtain ⟨lead, leadEq, leadBlank⟩ := optional (previous.any (· != '\n'))
  obtain ⟨trail, trailEq, trailBlank⟩ := optional (next.any fun char => !Text.isReturn char)
  rw [displayBlock, Piece.paint_append, Piece.paint_eq_append, leadEq, trailEq]
  exact ⟨lead, _, trail, rfl, by simp [Region.display],
    Painted.frozen_paint (by simp [Region.display]), leadBlank, trailBlank⟩

theorem exists_toDisplay {newline : List Char} (lineEnd : IsLineEnd newline) {indent : List Char}
    (indented : ∀ char ∈ indent, Text.isIndent char = true) (previous : Option Char)
    (taken : List Char) (next : Option Char) :
    ∃ regions, toDisplay newline previous taken indent next = some regions ∧
      Blocks (Piece.paint regions) := by
  unfold toDisplay
  dsimp only
  split
  next =>
    refine ⟨_, rfl, ?_⟩
    obtain ⟨lead, block, trail, whole, filled, frozen, leadBlank, trailBlank⟩ :=
      blocks_displayBlock lineEnd [] (taken.drop indent.length) indent.getLast? next
    refine ⟨indent ++ lead, block, trail, ?_, filled, frozen, fun char member => ?_, trailBlank⟩
    · rw [Piece.paint_eq_append, Painted.paint_outside, whole, Painted.outside_append,
        List.append_assoc]
    · rcases List.mem_append.mp member with own | later
      · exact Text.isBlank_of_isIndent (indented char own)
      · exact leadBlank char later
  next => exact ⟨_, rfl, blocks_displayBlock lineEnd _ _ _ _⟩

theorem IsEnvironment.not_infix_blank {find text : List Char} (isEnvironment : IsEnvironment find)
    (blank : ∀ char ∈ text, Text.isBlank char = true) : ¬ find <:+: text := by
  intro found
  obtain ⟨rest, rfl⟩ := List.head?_eq_some_iff.mp isEnvironment.isCommand.first
  exact absurd (blank '\\' (found.subset (by simp))) (by decide)

/-- What stands outside before a block is blank, so a text outside that ends otherwise does not start
there. -/
theorem Blocks.not_prefix {painted rest : Painted} (blocks : Blocks painted) {find : List Char}
    {last : Char} (ends : find.getLast? = some last) (solid : Text.isBlank last = false) :
    ¬ Painted.outside find <+: painted ++ rest := by
  obtain ⟨lead, block, trail, rfl, filled, frozen, leadBlank, _⟩ := blocks
  obtain ⟨wall, block, rfl⟩ := List.exists_cons_of_ne_nil filled
  intro starts
  have within : Painted.outside find <+: Painted.outside lead := by
    have parted : Painted.outside find <+:
        Painted.outside lead ++ wall :: (block ++ Painted.outside trail ++ rest) := by
      simpa using starts
    exact prefix_of_wall parted (Painted.not_mem_outside frozen find wall (by simp))
  have inLead : Painted.text (Painted.outside find) <+: Painted.text (Painted.outside lead) :=
    within.map Prod.fst
  rw [Painted.text_outside, Painted.text_outside] at inLead
  rw [leadBlank last (inLead.subset (List.mem_of_getLast? ends))] at solid
  exact absurd solid (by decide)

theorem Blocks.lacks_append {painted rest : Painted} (blocks : Blocks painted)
    (lacks : rest.Lacks IsEnvironment) : Painted.Lacks IsEnvironment (painted ++ rest) := by
  obtain ⟨lead, block, trail, rfl, filled, frozen, leadBlank, trailBlank⟩ := blocks
  have front : Painted.Lacks IsEnvironment (Painted.outside lead) := by
    refine ⟨fun find isEnvironment found => isEnvironment.not_infix_blank leadBlank ?_⟩
    have inText := found.map Prod.fst
    simpa [Painted.outside, Function.comp_def] using inText
  have back : Painted.Lacks IsEnvironment (Painted.outside trail ++ rest) := by
    induction trail with
    | nil => exact lacks
    | cons char trail ih =>
        have later := ih fun other member => trailBlank other (by simp [member])
        refine ⟨fun find isEnvironment found => ?_⟩
        rcases List.infix_cons_iff.mp found with starts | inLater
        · obtain ⟨others, rfl⟩ := List.head?_eq_some_iff.mp isEnvironment.isCommand.first
          have same : '\\' = char := by
            simpa [Painted.outside] using (List.cons_prefix_cons.mp starts).1
          exact absurd (trailBlank char (by simp)) (same ▸ by decide)
        · exact later.absent find isEnvironment inLater
  rw [List.append_assoc, List.append_assoc]
  exact front.append back filled fun find _ => Painted.not_mem_outside frozen find

/-- Past the finds of a search no environment is left, and what stands before a find is read in the
text itself: a block stands apart from it by blanks. -/
theorem lacks_scan {newline : List Char} (lineEnd : IsLineEnd newline)
    (before after previous : Option Char) (text : List Char) :
    let new : Painted := Piece.paint ((Text.scan environment previous text).flatMap
      ((toDisplay newline).place before after))
    new.Lacks IsEnvironment ∧ ∀ find last, find.getLast? = some last → Text.isBlank last = false →
      Painted.outside find <+: new → find <+: text := by
  fun_induction Text.scan environment previous text with
  | case1 =>
      refine ⟨Painted.lacks_nil fun find own => own.isCommand.isSolid.ne_nil, ?_⟩
      intro find last ends _ starts
      have isNil : find = [] := by simpa [Painted.outside] using starts
      simp [isNil] at ends
  | case2 previous char rest missed ih =>
      obtain ⟨lacks, read⟩ := ih
      rw [List.flatMap_cons, Piece.paint_append]
      generalize Piece.paint (List.flatMap _ _) = new at lacks read ⊢
      have readHere : ∀ find last, find.getLast? = some last → Text.isBlank last = false →
          Painted.outside find <+: (char, .outside) :: new → find <+: char :: rest := by
        intro find last ends solid starts
        cases find with
        | nil => exact List.nil_prefix
        | cons first find =>
            obtain ⟨same, later⟩ := List.cons_prefix_cons.mp starts
            obtain rfl : first = char := congrArg Prod.fst same
            refine List.cons_prefix_cons.mpr ⟨rfl, ?_⟩
            cases find with
            | nil => exact List.nil_prefix
            | cons second find => exact read _ last (by simpa using ends) solid later
      refine ⟨⟨fun find isEnvironment found => ?_⟩, readHere⟩
      rcases List.infix_cons_iff.mp found with starts | later
      · have inText := readHere find '}' isEnvironment.isCommand.last (by decide) starts
        have readable := isSome_environment isEnvironment inText previous
        simp [missed] at readable
      · exact lacks.absent find isEnvironment later
  | case3 previous char rest size indent found taken left ih =>
      obtain ⟨_, _, indentEq⟩ := Option.map_eq_some_iff.mp ((environment_eq _ _).symm.trans found)
      have indented : ∀ char ∈ indent, Text.isIndent char = true := by
        rw [← (Prod.mk.inj indentEq).2]
        exact isIndent_indentOf
      obtain ⟨regions, built, blocks⟩ :=
        exists_toDisplay lineEnd indented (previous.or before) taken (left.head?.or after)
      rw [List.flatMap_cons, Piece.paint_append, Build.place, built, Option.getD_some]
      exact ⟨blocks.lacks_append ih.1,
        fun find last ends solid starts => absurd starts (blocks.not_prefix ends solid)⟩

theorem lacks_wrap {regions : List Region} (fused : Piece.IsFused regions) :
    Painted.Lacks IsEnvironment (Piece.paint (wrap regions)) := by
  refine Painted.lacks_reviseOutside (fun find own => own.isCommand.isSolid.ne_nil) ?_ fused
  intro before text after
  rw [substitution_eq]
  exact (lacks_scan (isLineEnd_lineEnding _) before after none text).1

/-- Wrapping leaves no environment outside, so that wrapping a second time changes nothing. -/
theorem noEnvironment_wrap {regions : List Region} (fused : Piece.IsFused regions) :
    (∀ region ∈ wrap regions, region.isOutside = true → ¬ HoldsEnvironment region.text) ∧
      wrap (wrap regions) = wrap regions := by
  have lacks := lacks_wrap fused
  have free : ∀ region ∈ wrap regions, region.isOutside = true → ¬ HoldsEnvironment region.text := by
    rintro region member isOutside ⟨find, isEnvironment, inText⟩
    exact lacks.absent find isEnvironment (Painted.infix_paint member isOutside inText)
  have fusedAgain : Piece.IsFused (wrap regions) := Piece.isFused_fuse _
  refine ⟨free, (wrap_eq_self_iff fusedAgain).mpr fun before indent reads => ?_⟩
  generalize wrap regions = wrapped at free reads
  generalize (none : Option Char) = start at reads
  induction reads with
  | here isOutside member =>
      have missed := findAll_environment_eq_nil_iff.mpr (free _ (by simp) isOutside)
      exact absurd (List.filterMap_eq_nil_iff.mp missed _ member) (by simp [Text.Found.hit?])
  | later _ ih => exact ih fun region member => free region (by simp [member])

theorem noEnvironment_wrap_crossed :
    let regions := [Region.outside "a \\begin{align}b\\begin{cases}c\\end{align}\\end{cases}".toList,
      Region.code "\x60d\x60".toList, Region.outside " \\begin{array}e\\end{array}".toList]
    Piece.IsFused regions ∧
      wrap regions = [Region.outside "a \n".toList,
        Region.display "$$\n\\begin{align}b\\begin{cases}c\\end{align}\n$$".toList,
        Region.outside "\n\\end{cases}".toList, Region.code "\x60d\x60".toList,
        Region.outside " \n".toList,
        Region.display "$$\n\\begin{array}e\\end{array}\n$$".toList] ∧
      (∀ region ∈ wrap regions, region.isOutside = true → ¬ HoldsEnvironment region.text) ∧
      wrap (wrap regions) = wrap regions := by
  have fused : Piece.IsFused
      [Region.outside "a \\begin{align}b\\begin{cases}c\\end{align}\\end{cases}".toList,
        Region.code "\x60d\x60".toList, Region.outside " \\begin{array}e\\end{array}".toList] :=
    ⟨by decide, by decide⟩
  exact ⟨fused, by decide +kernel, noEnvironment_wrap fused⟩

end DollarMath.Environments
