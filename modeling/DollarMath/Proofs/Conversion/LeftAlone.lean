import DollarMath.Proofs.Conversion.FixedPoint
import DollarMath.Proofs.Conversion.WithReturns

/-!
Texts that the default conversion leaves as they are, told by the texts alone: nothing stands in
them that what it replaces starts with.
-/

namespace DollarMath

/-- A text without an escaped opening delimiter, an environment, two dollars next to each other, a
dollar before a space, and an opening bracket at the end of a line. -/
structure IsPlain (text : List Char) : Prop where
  squares : ¬ ['\\', '['] <:+: text
  parens : ¬ ['\\', '('] <:+: text
  environments : ¬ ['\\', 'b', 'e', 'g', 'i', 'n', '{'] <:+: text
  displays : ¬ ['$', '$'] <:+: text
  padded : ¬ ['$', ' '] <:+: text
  lines : ∀ indent newline, (∀ char ∈ indent, Text.isIndent char = true) → IsLineEnd newline →
    ¬ '[' :: (indent ++ newline) <:+: text

/-- What a reading saw at its find ends the text of a region outside. -/
theorem Reads.exists_region {α : Type} {recognize : Text.Recognizer α} {start before : Option Char}
    {regions : List Region} {value : α} (takes : recognize.Takes)
    (reads : Reads recognize start regions before value) :
    ∃ region ∈ regions, region.isOutside = true ∧ ∃ previous seen size,
      recognize previous seen = some (size, value) ∧ seen <:+ region.text := by
  induction reads with
  | @here start region regions previous taken value next free member =>
      obtain ⟨front, back, parts⟩ := List.append_of_mem member
      have found := (takes.scan_split parts).2.2
      have spelled := Text.flatMap_text_scan recognize none region.text
      rw [parts, List.flatMap_append, List.flatMap_cons, Text.Found.text] at spelled
      exact ⟨region, by simp, free, _, _, _, found, front.flatMap Text.Found.text, spelled⟩
  | later _ ih =>
      obtain ⟨region, member, rest⟩ := ih
      exact ⟨region, List.mem_cons_of_mem _ member, rest⟩

namespace Delimiters

theorem prefix_of_escapedParens {before : Option Char} {text inside : List Char} {size : Nat}
    (found : escapedParens before text = some (size, inside)) : ['\\', '('] <+: text := by
  unfold escapedParens at found
  split at found
  next => simp
  next => simp at found

theorem prefix_of_paddedDollars {before : Option Char} {text inside : List Char} {size : Nat}
    (found : paddedDollars before text = some (size, inside)) : ['$', ' '] <+: text := by
  unfold paddedDollars at found
  split at found
  next rest =>
    split at found
    next => simp at found
    next =>
      dsimp only at found
      split at found
      next =>
        split at found
        next padded =>
          simp only [Bool.and_eq_true, beq_iff_eq] at padded
          have starts := List.takeWhile_prefix (l := rest) fun char => char != '$' && char != '\n'
          obtain ⟨others, insideEq⟩ := List.head?_eq_some_iff.mp padded.1.1.1
          rw [insideEq] at starts
          obtain ⟨left, rfl⟩ := starts
          simp
        next => simp at found
      next => simp at found
  next => simp at found

theorem exists_lineEnd {text rest : List Char} (broken : afterLineBreak? text = some rest) :
    ∃ newline, IsLineEnd newline ∧ text = newline ++ rest := by
  unfold afterLineBreak? at broken
  split at broken
  · obtain rfl := Option.some.inj broken
    exact ⟨['\r', '\n'], .inr rfl, rfl⟩
  · obtain rfl := Option.some.inj broken
    exact ⟨['\n'], .inl rfl, rfl⟩
  · simp at broken

theorem infix_of_bracketLines {before : Option Char} {text inside : List Char} {size : Nat}
    (found : bracketLines before text = some (size, inside)) :
    ∃ indent newline, (∀ char ∈ indent, Text.isIndent char = true) ∧ IsLineEnd newline ∧
      '[' :: (indent ++ newline) <:+: text := by
  obtain ⟨_, body, _, opened, _⟩ := bracketLines_eq_some found
  unfold afterOpeningLine? at opened
  split at opened
  next rest bracket =>
    obtain ⟨newline, lineEnd, broken⟩ := exists_lineEnd opened
    refine ⟨rest.takeWhile Text.isIndent, newline, fun char => List.mem_takeWhile_imp, lineEnd, ?_⟩
    have inText : '[' :: rest <:+ text := bracket ▸ List.dropWhile_suffix _
    have parts := List.takeWhile_append_dropWhile (p := Text.isIndent) (l := rest)
    rw [broken] at parts
    refine List.IsInfix.trans ⟨[], body, ?_⟩ inText.isInfix
    conv_rhs => rw [← parts]
    simp
  next => simp at opened

end Delimiters

theorem Environments.infix_of_environment {before : Option Char} {text indent : List Char}
    {size : Nat} (found : environment before text = some (size, indent)) :
    ['\\', 'b', 'e', 'g', 'i', 'n', '{'] <:+: text := by
  obtain ⟨rest, ended, _⟩ := Option.map_eq_some_iff.mp found
  obtain ⟨_, begun, _⟩ := Option.bind_eq_some_iff.mp ended
  obtain ⟨opened, starts, _⟩ := Option.bind_eq_some_iff.mp begun
  have word := Text.afterWord?_eq_some starts
  have start : ['\\', 'b', 'e', 'g', 'i', 'n', '{'] <+: text.drop _ :=
    word ▸ List.prefix_append _ _
  exact start.isInfix.trans (List.drop_suffix _ text).isInfix

theorem Line.text_infix {regions : List Region} {front back : List Line} {line : Line}
    (parts : Line.ofRegions regions = front ++ line :: back) :
    line.text <:+: Piece.join regions := by
  have spelled := Fragment.flatMap_text_ofRegions 0 regions
  rw [← Line.flatMap_fragments_group (Fragment.ofRegions 0 regions)] at spelled
  change (List.flatMap Line.fragments (Line.ofRegions regions)).flatMap Fragment.text = _ at spelled
  rw [parts, List.flatMap_append, List.flatMap_cons, List.flatMap_append, List.flatMap_append]
    at spelled
  exact ⟨_, _, by rw [List.append_assoc]; exact spelled⟩

theorem Line.strip_content_infix (line : Line) : Text.strip line.content <:+: line.text := by
  have body : line.content <:+: line.text := by
    have parts := Text.lineBody_append_lineReturn line.text
    exact ⟨[], _, parts⟩
  exact (Text.strip_isInfix _).trans body

namespace BlankLines

theorem noDisplay_of_free {line : Line} (free : ¬ ['$', '$'] <:+: Text.strip line.content) :
    opensDisplay line = false ∧ closesDisplay line = false := by
  constructor
  · by_contra opens
    simp only [opensDisplay, startsWithDollars, Bool.not_eq_false, Bool.and_eq_true,
      List.isPrefixOf_iff_prefix] at opens
    exact free opens.2.isInfix
  · by_contra closes
    simp only [closesDisplay, endsWithDollars, Bool.not_eq_false, Bool.and_eq_true,
      List.isSuffixOf_iff_suffix] at closes
    exact free closes.2.isInfix

/-- In regions without two dollars side by side no blank line is next to display math. -/
theorem isDropped_of_free {regions : List Region} {front back : List Line} {line : Line}
    (free : ¬ ['$', '$'] <:+: Piece.join regions)
    (parts : Line.ofRegions regions = front ++ line :: back) :
    isDropped front.getLast? line back.head? = false := by
  have noDisplay {above below : List Line} {next : Line}
      (parts : Line.ofRegions regions = above ++ next :: below) :
      opensDisplay next = false ∧ closesDisplay next = false := by
    apply noDisplay_of_free
    intro dollars
    exact free ((dollars.trans (Line.strip_content_infix next)).trans (Line.text_infix parts))
  have below : back.head?.any opensDisplay = false := by
    cases back with
    | nil => rfl
    | cons next back => exact (@noDisplay (front ++ [line]) back next (by simp [parts])).1
  have above : front.getLast?.any closesDisplay = false := by
    obtain rfl | ⟨init, last, rfl⟩ := List.eq_nil_or_concat' front
    · rfl
    · rw [List.getLast?_concat]
      exact (@noDisplay init (line :: back) last (by simp [parts])).2
  rw [isDropped, below, above]
  rfl

end BlankLines

theorem IsPlain.settled {text : List Char} (plain : IsPlain text) :
    Settled (Document.regions text) := by
  have spelled : Piece.join (Document.regions text) = text := Document.join_regions text
  have inText {region : Region} (member : region ∈ Document.regions text) :
      region.text <:+: text := by
    obtain ⟨front, back, parts⟩ := List.append_of_mem member
    rw [parts] at spelled
    exact ⟨Piece.join front, Piece.join back, by simpa using spelled⟩
  have noRead {recognize : Text.Recognizer (List Char)} (takes : recognize.Takes)
      {before : Option Char} {value opener : List Char} (absent : ¬ opener <:+: text)
      (starts : ∀ previous seen size value, recognize previous seen = some (size, value) →
        opener <:+: seen) : ¬ Reads recognize none (Document.regions text) before value := by
    intro reads
    obtain ⟨region, member, _, previous, seen, size, found, ends⟩ := reads.exists_region takes
    have inRegion := (starts previous seen size value found).trans ends.isInfix
    exact absent (inRegion.trans (inText member))
  refine ⟨fun before inside reads => ?_, fun before inside reads => ?_,
    fun before inside reads => ?_, fun before inside reads => ?_, fun before indent reads => ?_,
    fun front line back parts => ?_⟩
  · refine absurd reads (noRead (Delimiters.substitutes_escapedSquares (.inl rfl)).takes
      plain.squares fun previous seen size value found => ?_)
    obtain ⟨left, rfl, _⟩ := Delimiters.escapedSquares_eq_some found
    exact ⟨[], _, rfl⟩
  · obtain ⟨region, member, _, previous, seen, size, found, ends⟩ :=
      reads.exists_region (Delimiters.substitutes_bracketLines (.inl rfl)).takes
    obtain ⟨indent, newline, isIndent, lineEnd, opening⟩ := Delimiters.infix_of_bracketLines found
    exact absurd (opening.trans (ends.isInfix.trans (inText member)))
      (plain.lines indent newline isIndent lineEnd)
  · exact absurd reads (noRead Delimiters.substitutes_escapedParens.takes plain.parens
      fun previous seen size value found => (Delimiters.prefix_of_escapedParens found).isInfix)
  · exact absurd reads (noRead Delimiters.substitutes_paddedDollars.takes plain.padded
      fun previous seen size value found => (Delimiters.prefix_of_paddedDollars found).isInfix)
  · exact noRead (Environments.substitutes_environment (.inl rfl)).takes plain.environments
      (fun previous seen size value found => Environments.infix_of_environment found) reads
  · apply BlankLines.isDropped_of_free _ parts
    rw [spelled]
    exact plain.displays

theorem convert_eq_self_of_isPlain {text : List Char} (plain : IsPlain text) :
    convert {} text = text :=
  (convert_default_eq_self_iff text).mpr plain.settled

/-- A second default conversion of a plain text changes nothing, for the first one did not. -/
theorem convert_convert_of_isPlain {text : List Char} (plain : IsPlain text) :
    convert {} (convert {} text) = convert {} text := by
  rw [convert_eq_self_of_isPlain plain, convert_eq_self_of_isPlain plain]

end DollarMath
