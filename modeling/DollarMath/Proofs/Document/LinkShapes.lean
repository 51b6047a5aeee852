import DollarMath.Editor
import DollarMath.Proofs.Conversion.Carved

/-!
What counts as nothing but a link: an address or a link as a whole, or whatever starts with an
address that a link is glued to.
-/

namespace DollarMath.Link

def IsScheme (text : List Char) : Prop :=
  ∃ first others, text = first :: (others ++ [':', '/', '/']) ∧ first.isAlpha = true ∧
    ∀ char ∈ others, isSchemeChar char = true

def IsBareAddress (text : List Char) : Prop :=
  ∃ scheme body, text = scheme ++ body ∧ IsScheme scheme ∧ body ≠ [] ∧
    ∀ char ∈ body, Text.isBlank char = false

def IsBracketed (text : List Char) : Prop :=
  ∃ mark label target, text = mark ++ '[' :: label ++ [']', '('] ++ target ++ [')'] ∧
    (mark = [] ∨ mark = ['!'])

def IsGlued (text : List Char) : Prop :=
  ∃ scheme body label target, text = scheme ++ body ++ '[' :: label ++ [']', '('] ++ target ++ [')'] ∧
    IsScheme scheme ∧ body ≠ [] ∧ ∀ char ∈ body, Text.isBlank char = false ∧ char ≠ '['

structure IsWholeLink (text : List Char) : Prop where
  nonempty : text ≠ []
  onLine : '\n' ∉ text
  shape : IsBareAddress text ∨ IsBracketed text ∨ IsGlued text

/-- A line that goes on after a link glued to an address. -/
structure GoesOn (text : List Char) : Prop where
  onLine : '\n' ∉ text
  starts : ∃ glued more, text = glued ++ more ∧ more ≠ [] ∧ IsGlued glued

def ReadsAsLink (text : List Char) : Prop :=
  IsWholeLink text ∨ GoesOn text

theorem afterScheme?_iff {text rest : List Char} :
    afterScheme? text = some rest ↔ ∃ scheme, text = scheme ++ rest ∧ IsScheme scheme := by
  rw [afterScheme?_eq_some_iff]
  constructor
  · rintro ⟨first, others, rfl, letter, signs⟩
    exact ⟨_, by simp, first, others, rfl, letter, signs⟩
  · rintro ⟨_, rfl, first, others, rfl, letter, signs⟩
    exact ⟨first, others, by simp, letter, signs⟩

theorem isAddress_iff {text : List Char} : isAddress text = true ↔ IsBareAddress text := by
  unfold isAddress
  constructor
  · intro whole
    split at whole
    next => simp at whole
    next body opened =>
      obtain ⟨scheme, textEq, isScheme⟩ := afterScheme?_iff.mp opened
      exact ⟨scheme, body, textEq, isScheme, by simpa using whole⟩
  · rintro ⟨scheme, body, textEq, isScheme, filled, solid⟩
    rw [afterScheme?_iff.mpr ⟨scheme, textEq, isScheme⟩]
    simpa [filled] using solid

theorem isSome_afterLabel?_iff {text : List Char} :
    (afterLabel? text).isSome = true ↔ [']', '('] <:+: text := by
  rw [afterLabel?, Option.isSome_map, Text.isSome_splitAtFirst?_iff]

theorem exists_afterLabel? (label rest : List Char) :
    ∃ after, afterLabel? (label ++ [']', '('] ++ rest) = some after ∧ rest <:+ after := by
  have read : (Text.splitAtFirst? [']', '('] (label ++ [']', '('] ++ rest)).isSome = true :=
    Text.isSome_splitAtFirst?_iff.mpr ⟨label, rest, rfl⟩
  obtain ⟨⟨front, after⟩, found⟩ := Option.isSome_iff_exists.mp read
  have whole := Text.splitAtFirst?_eq_some found
  have shortest := Text.splitWhere?_shortest found (List.append_assoc _ _ _)
    (by simp [Text.afterWord?])
  refine ⟨after, by rw [afterLabel?, found]; rfl, ?_⟩
  refine List.suffix_of_suffix_length_le ⟨_, rfl⟩ ⟨front ++ [']', '('], whole.symm⟩ ?_
  have lengths := congrArg List.length whole
  simp only [List.length_append] at lengths
  omega

theorem isMarkdownLink_iff {text : List Char} : isMarkdownLink text = true ↔ IsBracketed text := by
  have unmarked (link : List Char) : (link.head? == some '[' && link.getLast? == some ')' &&
      (afterLabel? link.tail.dropLast).isSome) = true ↔
        ∃ label target, link = '[' :: label ++ [']', '('] ++ target ++ [')'] := by
    simp only [Bool.and_eq_true, beq_iff_eq, isSome_afterLabel?_iff]
    constructor
    · rintro ⟨⟨opens, closes⟩, label, target, inside⟩
      obtain ⟨tail, rfl⟩ := List.head?_eq_some_iff.mp opens
      obtain ⟨front, whole⟩ := List.getLast?_eq_some_iff.mp closes
      cases front with
      | nil => simp at whole
      | cons first front =>
          rw [List.cons_append, List.cons.injEq] at whole
          obtain ⟨rfl, rfl⟩ := whole
          rw [List.tail_cons, List.dropLast_concat] at inside
          exact ⟨label, target, by simp [← inside]⟩
    · rintro ⟨label, target, rfl⟩
      refine ⟨⟨rfl, List.getLast?_concat⟩, label, target, ?_⟩
      rw [List.cons_append, List.cons_append, List.cons_append, List.tail_cons, List.dropLast_concat]
  unfold isMarkdownLink
  dsimp only
  rw [unmarked]
  constructor
  · rintro ⟨label, target, whole⟩
    split at whole
    next image =>
      obtain ⟨tail, rfl⟩ := List.head?_eq_some_iff.mp (by simpa using image)
      exact ⟨['!'], label, target, by simpa using whole, .inr rfl⟩
    next => exact ⟨[], label, target, by simpa using whole, .inl rfl⟩
  · rintro ⟨mark, label, target, rfl, rfl | rfl⟩
    · exact ⟨label, target, by simp⟩
    · exact ⟨label, target, by simp⟩

theorem startsWithGluedLink_iff {text : List Char} :
    startsWithGluedLink text = true ↔ ∃ glued more, text = glued ++ more ∧ IsGlued glued := by
  unfold startsWithGluedLink
  constructor
  · intro glued
    split at glued
    next => simp at glued
    next rest opened =>
      obtain ⟨scheme, rfl, isScheme⟩ := afterScheme?_iff.mp opened
      have whole := List.takeWhile_append_dropWhile
        (p := fun char => !Text.isBlank char && char != '[') (l := rest)
      have solid : ∀ char ∈ rest.takeWhile fun char => !Text.isBlank char && char != '[',
          Text.isBlank char = false ∧ char ≠ '[' :=
        fun char member => by simpa using List.mem_takeWhile_imp member
      dsimp only at glued
      generalize rest.takeWhile _ = body at whole solid
      generalize rest.dropWhile _ = ended at whole glued
      subst whole
      simp only [Bool.and_eq_true, decide_eq_true_eq, beq_iff_eq, List.length_append] at glued
      obtain ⟨⟨longer, opens⟩, closes⟩ := glued
      obtain ⟨tail, rfl⟩ := List.head?_eq_some_iff.mp opens
      split at closes
      next => simp at closes
      next after labelled =>
        obtain ⟨⟨label, rest⟩, found, rfl⟩ := Option.map_eq_some_iff.mp labelled
        obtain ⟨target, more, split⟩ := List.append_of_mem (List.contains_iff_mem.mp closes)
        have tailEq := Text.splitAtFirst?_eq_some found
        rw [List.tail_cons] at tailEq
        dsimp only at split
        refine ⟨scheme ++ body ++ '[' :: label ++ [']', '('] ++ target ++ [')'], more, ?_,
          scheme, body, label, target, rfl, isScheme, ?_, solid⟩
        · rw [tailEq, split]
          simp
        · rintro rfl
          simp at longer
  · rintro ⟨_, more, rfl, scheme, body, label, target, rfl, isScheme, filled, solid⟩
    have opened : afterScheme? (scheme ++ body ++ '[' :: label ++ [']', '('] ++ target ++ [')'] ++
        more) = some (body ++ '[' :: (label ++ [']', '('] ++ (target ++ ')' :: more))) :=
      afterScheme?_iff.mpr ⟨scheme, by simp, isScheme⟩
    have ended : (body ++ '[' :: (label ++ [']', '('] ++ (target ++ ')' :: more))).dropWhile
        (fun char => !Text.isBlank char && char != '[') =
          '[' :: (label ++ [']', '('] ++ (target ++ ')' :: more)) := by
      rw [List.dropWhile_append_of_pos, List.dropWhile_cons_of_neg (by simp)]
      intro char member
      simpa using solid char member
    obtain ⟨after, labelled, within⟩ := exists_afterLabel? label (target ++ ')' :: more)
    have closes : ')' ∈ after := within.subset (by simp)
    rw [opened]
    dsimp only
    rw [ended, List.tail_cons, labelled]
    simpa [List.length_pos_iff.mpr filled] using closes

theorem isBlob_iff {text : List Char} : isBlob text = true ↔ ReadsAsLink text := by
  simp only [isBlob, Bool.and_eq_true, Bool.or_eq_true, isAddress_iff, isMarkdownLink_iff,
    startsWithGluedLink_iff, or_assoc]
  constructor
  · rintro ⟨⟨filled, own⟩, shape⟩
    have nonempty : text ≠ [] := by simpa using filled
    have onLine : '\n' ∉ text := by simpa using own
    rcases shape with address | bracketed | ⟨glued, more, textEq, isGlued⟩
    · exact .inl ⟨nonempty, onLine, .inl address⟩
    · exact .inl ⟨nonempty, onLine, .inr (.inl bracketed)⟩
    · by_cases whole : more = []
      · rw [whole, List.append_nil] at textEq
        exact .inl ⟨nonempty, onLine, .inr (.inr (textEq ▸ isGlued))⟩
      · exact .inr ⟨onLine, glued, more, textEq, whole, isGlued⟩
  · rintro (⟨nonempty, onLine, shape⟩ | ⟨onLine, glued, more, rfl, filled, isGlued⟩)
    · refine ⟨⟨by simpa using nonempty, by simpa using onLine⟩, ?_⟩
      exact shape.imp_right fun other =>
        other.imp_right fun isGlued => ⟨text, [], (List.append_nil _).symm, isGlued⟩
    · exact ⟨⟨by simp [filled], by simpa using onLine⟩, .inr (.inr ⟨glued, more, rfl, isGlued⟩)⟩

theorem IsScheme.ends {scheme : List Char} (isScheme : IsScheme scheme) :
    [':', '/', '/'] <:+ scheme := by
  obtain ⟨first, others, rfl, _⟩ := isScheme
  exact ⟨first :: others, by simp⟩

theorem ReadsAsLink.exists_mark {text : List Char} (reads : ReadsAsLink text) :
    [':', '/', '/'] <:+: text ∨ '[' ∈ text := by
  rcases reads with whole | goesOn
  · rcases whole.shape with ⟨scheme, body, rfl, isScheme, _⟩ | ⟨mark, label, target, rfl, _⟩ |
      ⟨scheme, body, label, target, rfl, _⟩
    · exact .inl (isScheme.ends.isInfix.trans (List.prefix_append _ _).isInfix)
    · exact .inr (by simp)
    · exact .inr (by simp)
  · obtain ⟨_, more, rfl, _, scheme, body, label, target, rfl, _⟩ := goesOn.starts
    exact .inr (by simp)

/-- What is taken for a link is one as a whole, or goes on after a link glued to an address. A paste
of it is left to the editor, prose that is nothing else is frozen whole, and so is a line. -/
theorem isBlob_shapes (text : List Char) :
    (isBlob text = true ↔ IsWholeLink text ∨ GoesOn text) ∧
      (∀ (buffer : Buffer) (options : Options), (buffer.paste options text).1 = true ↔
        options.pasteConversion = true ∧ text ≠ [] ∧ ¬ ReadsAsLink (Text.strip text)) ∧
      (∀ document front back, Fence.split document = front ++ ⟨.prose, text⟩ :: back →
        ReadsAsLink (Text.strip text) →
        Piece.paint (Document.regions document) =
          Piece.paint (front.flatMap Document.segmentRegions) ++ (text.map (·, .link) ++
            Piece.paint (back.flatMap Document.segmentRegions))) ∧
      (ReadsAsLink (Text.strip (Text.lineBody text)) → freezeLine text =
        [Region.link (Text.lineBody text), Region.outside (Text.lineReturn text)]) := by
  refine ⟨isBlob_iff, fun buffer options => ?_, ?_, fun reads => ?_⟩
  · have converts : (buffer.paste options text).1 = Buffer.convertsPaste options text := by
      unfold Buffer.paste
      split <;> simp_all
    rw [converts, ← isBlob_iff]
    simp [Buffer.convertsPaste, and_assoc]
  · intro document front back split reads
    have whole : Document.segmentRegions ⟨.prose, text⟩ = [Region.link text] := by
      rw [Document.segmentRegions, Document.proseRegions, if_pos (isBlob_iff.mpr reads)]
    rw [Document.regions, Piece.paint_fuse, split, List.flatMap_append, List.flatMap_cons, whole,
      Piece.paint_append, Piece.paint_append]
    simp [Region.link]
  · rw [freezeLine, if_pos (isBlob_iff.mpr reads)]

/-- A link glued to an address need not be all there is. -/
theorem isBlob_trailing :
    let text := "https://a.b[c](d) and \\(x\\) more".toList
    isBlob text = true ∧ ¬ IsWholeLink text ∧
      ((Buffer.ofText []).paste {} text).1 = false ∧ Document.regions text = [Region.link text] := by
  refine ⟨by decide +kernel, ?_, by decide +kernel, by decide +kernel⟩
  rintro ⟨_, _, address | bracketed | ⟨scheme, body, label, target, whole, _⟩⟩
  · exact absurd (isAddress_iff.mpr address) (by decide +kernel)
  · exact absurd (isMarkdownLink_iff.mpr bracketed) (by decide +kernel)
  · have last := congrArg List.getLast? whole
    rw [List.getLast?_concat] at last
    exact absurd last (by decide +kernel)

end DollarMath.Link
