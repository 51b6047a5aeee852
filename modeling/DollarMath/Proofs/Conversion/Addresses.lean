import DollarMath.Proofs.Conversion.Carved
import DollarMath.Review

/-!
The addresses that the review finds in a text, and those it finds after a conversion. They are the
same where nothing outside that a conversion could start from is glued to an address.
-/

namespace DollarMath

namespace Link

def IsOpening (text : List Char) : Prop :=
  ∃ first scheme, text = first :: (scheme ++ [':', '/', '/']) ∧ first.isAlpha = true ∧
    ∀ char ∈ scheme, isSchemeChar char = true

def isOpeningChar (char : Char) : Bool :=
  isSchemeChar char || char == ':' || char == '/'

theorem not_isBlank_of_isOpeningChar {char : Char} (opens : isOpeningChar char = true) :
    Text.isBlank char = false := by
  simp only [isOpeningChar, Bool.or_eq_true, beq_iff_eq] at opens
  rcases opens with (scheme | rfl) | rfl
  · exact not_isBlank_of_isSchemeChar scheme
  · decide
  · decide

theorem isAddressChar_of_isOpeningChar {char : Char} (opens : isOpeningChar char = true) :
    isAddressChar char = true := by
  have notParen : char ≠ ')' := by
    rintro rfl
    exact absurd opens (by decide)
  simp [isAddressChar, not_isBlank_of_isOpeningChar opens, notParen]

theorem IsOpening.chars {text : List Char} (opening : IsOpening text) :
    ∀ char ∈ text, isOpeningChar char = true := by
  obtain ⟨first, scheme, rfl, letter, schemeChars⟩ := opening
  intro char member
  simp only [List.mem_cons, List.mem_append, List.not_mem_nil, or_false] at member
  rcases member with rfl | inScheme | rfl | rfl | rfl
  · simp [isOpeningChar, isSchemeChar, Char.isAlphanum, letter]
  · simp [isOpeningChar, schemeChars char inScheme]
  · decide
  · decide
  · decide

theorem isSome_afterScheme? {text : List Char} :
    (afterScheme? text).isSome = true ↔ ∃ opening, IsOpening opening ∧ opening <+: text := by
  constructor
  · intro found
    obtain ⟨rest, opened⟩ := Option.isSome_iff_exists.mp found
    obtain ⟨first, scheme, rfl, letter, schemeChars⟩ := afterScheme?_eq_some_iff.mp opened
    exact ⟨_, ⟨first, scheme, rfl, letter, schemeChars⟩, rest, by simp⟩
  · rintro ⟨_, ⟨first, scheme, rfl, letter, schemeChars⟩, rest, rfl⟩
    have opened : afterScheme? (first :: (scheme ++ [':', '/', '/']) ++ rest) = some rest :=
      afterScheme?_eq_some_iff.mpr ⟨first, scheme, by simp, letter, schemeChars⟩
    rw [opened]
    rfl

theorem isAddressChar_of_opened {char : Char} {rest : List Char}
    (opened : (afterScheme? (char :: rest)).isSome = true) : isAddressChar char = true := by
  obtain ⟨opening, isOpening, starts⟩ := isSome_afterScheme?.mp opened
  have chars := isOpening.chars
  obtain ⟨first, scheme, rfl, _⟩ := isOpening
  rw [← (List.cons_prefix_cons.mp starts).1]
  exact isAddressChar_of_isOpeningChar (chars first (by simp))

def EndsRun (rest : List Char) : Prop :=
  ∀ char, rest.head? = some char → isAddressChar char = false

section Run

variable {run rest : List Char}

theorem takeWhile_run (own : ∀ char ∈ run, isAddressChar char = true) (ends : EndsRun rest) :
    (run ++ rest).takeWhile isAddressChar = run := by
  rw [List.takeWhile_append_of_pos own]
  cases rest with
  | nil => simp
  | cons char rest => rw [List.takeWhile_cons_of_neg (by simp [ends char rfl]), List.append_nil]

theorem IsOpening.prefix_run {opening : List Char} (isOpening : IsOpening opening)
    (ends : EndsRun rest) (starts : opening <+: run ++ rest) : opening <+: run := by
  cases rest with
  | nil => simpa using starts
  | cons char rest =>
      refine prefix_of_wall starts fun member => ?_
      have own := isAddressChar_of_isOpeningChar (isOpening.chars char member)
      rw [ends char rfl] at own
      exact absurd own (by decide)

/-- The run of address characters at the head of a text tells whether an address stands there. -/
theorem address_run (own : ∀ char ∈ run, isAddressChar char = true) (ends : EndsRun rest)
    (before : Option Char) : address before (run ++ rest) = address none run := by
  cases opened : afterScheme? run with
  | none =>
      have closed : afterScheme? (run ++ rest) = none := by
        by_contra found
        rw [← ne_eq, ← Option.isSome_iff_ne_none] at found
        obtain ⟨opening, isOpening, starts⟩ := isSome_afterScheme?.mp found
        have isScheme := isSome_afterScheme?.mpr ⟨opening, isOpening, isOpening.prefix_run ends starts⟩
        rw [opened] at isScheme
        exact absurd isScheme (by decide)
      simp [address, opened, closed]
  | some body =>
      obtain ⟨first, scheme, rfl, letter, schemeChars⟩ := afterScheme?_eq_some_iff.mp opened
      have whole : afterScheme? (first :: (scheme ++ ':' :: '/' :: '/' :: body) ++ rest) =
          some (body ++ rest) :=
        afterScheme?_eq_some_iff.mpr ⟨first, scheme, by simp, letter, schemeChars⟩
      have inBody : ∀ char ∈ body, isAddressChar char = true :=
        fun char member => own char (by simp [member])
      have bare := @takeWhile_run body [] inBody (by simp [EndsRun])
      rw [List.append_nil] at bare
      simp only [address, opened, whole, takeWhile_run inBody ends, bare]
      simp only [List.length_append, List.length_cons]
      split
      · rfl
      · congr 2
        omega

theorem address_length {size : Nat} (own : ∀ char ∈ run, isAddressChar char = true)
    (found : address none run = some (size, ())) : size = run.length := by
  unfold address at found
  split at found
  next => simp at found
  next body opened =>
    obtain ⟨first, scheme, rfl, letter, schemeChars⟩ := afterScheme?_eq_some_iff.mp opened
    have inBody : ∀ char ∈ body, isAddressChar char = true :=
      fun char member => own char (by simp [member])
    have bare := @takeWhile_run body [] inBody (by simp [EndsRun])
    rw [List.append_nil] at bare
    rw [bare] at found
    dsimp only at found
    split at found
    next => simp at found
    next =>
      simp only [Option.some.injEq, Prod.mk.injEq, and_true, List.length_cons,
        List.length_append] at found ⊢
      omega

end Run

theorem address_of_closed {text : List Char} {before : Option Char}
    (closed : afterScheme? text = none) : address before text = none := by
  simp [address, closed]

theorem findAll_scan (before : Option Char) (text : List Char) :
    (Text.scan address before text).filterMap Text.Found.hit? = Text.findAll address text := by
  cases text with
  | nil => simp [Text.findAll, Text.scan]
  | cons char rest =>
      have same : address before (char :: rest) = address none (char :: rest) := rfl
      rw [Text.findAll, Text.scan, Text.scan, same]
      split <;> rfl

theorem findAll_of_none {char : Char} {rest : List Char}
    (absent : address none (char :: rest) = none) :
    Text.findAll address (char :: rest) = Text.findAll address rest := by
  rw [Text.findAll, Text.scan, absent]
  exact findAll_scan (some char) rest

theorem findAll_run {run rest : List Char} {size : Nat}
    (own : ∀ char ∈ run, isAddressChar char = true) (ends : EndsRun rest)
    (found : address none run = some (size, ())) :
    Text.findAll address (run ++ rest) = run :: Text.findAll address rest := by
  obtain rfl := address_length own found
  cases run with
  | nil => simp [address, afterScheme?] at found
  | cons char run =>
      have whole := address_run own ends none
      rw [found, List.cons_append] at whole
      rw [List.cons_append, Text.findAll, Text.scan, whole]
      simp only [List.length_cons, Nat.add_sub_cancel, List.take_left, List.drop_left,
        List.filterMap_cons, Text.Found.hit?]
      rw [findAll_scan]

/-- The characters inside of a line from which a conversion starts, or which follow at once. -/
def marks : List Char :=
  ['\\', '$', '[', '(', '^', '_']

/-- A conversion of the text would start in the run of address characters at its head. -/
def IsMarked (text : List Char) : Prop :=
  ∃ front mark back, text = front ++ mark :: back ∧ mark ∈ marks ∧
    ∀ char ∈ front ++ [mark], isAddressChar char = true

theorem isMarked_cons {mark : Char} {back : List Char} (isMark : mark ∈ marks)
    (own : isAddressChar mark = true) : IsMarked (mark :: back) :=
  ⟨[], mark, back, rfl, isMark, by simpa using own⟩

end Link

open Link

theorem isAddressChar_of_isBlank {char : Char} (blank : Text.isBlank char = true) :
    isAddressChar char = false := by
  simp [isAddressChar, blank]

theorem not_isOpeningChar_of_isBlank {char : Char} (blank : Text.isBlank char = true) :
    isOpeningChar char = false := by
  by_contra opens
  rw [not_isBlank_of_isOpeningChar (by simpa using opens)] at blank
  exact absurd blank (by decide)

/-- What is put in holds no opening that did not stand in the replaced text, and none reaches over
its ends. -/
structure KeepsOpenings (text new : List Char) : Prop where
  first : ∃ char, new.head? = some char ∧ isOpeningChar char = false
  last : ∃ char, new.getLast? = some char ∧ isOpeningChar char = false
  inner : ∀ opening, IsOpening opening → opening <:+: new → opening <:+: text

theorem Link.IsOpening.not_mem {opening : List Char} (isOpening : IsOpening opening) {char : Char}
    (bare : isOpeningChar char = false) : char ∉ opening := by
  intro member
  rw [isOpening.chars char member] at bare
  exact absurd bare (by decide)

theorem bare_of_all {text : List Char} (bare : text.all (fun char => !isOpeningChar char) = true) :
    ∀ char ∈ text, isOpeningChar char = false := by
  simpa using bare

theorem keepsOpenings_between {front inside back text : List Char}
    (frontBare : ∀ char ∈ front, isOpeningChar char = false)
    (backBare : ∀ char ∈ back, isOpeningChar char = false) (leads : front ≠ []) (trails : back ≠ [])
    (inText : inside <:+: text) : KeepsOpenings text (front ++ inside ++ back) := by
  refine ⟨?_, ?_, fun opening isOpening found => ?_⟩
  · obtain ⟨char, front, rfl⟩ := List.exists_cons_of_ne_nil leads
    exact ⟨char, rfl, frontBare char (by simp)⟩
  · obtain ⟨init, last, rfl⟩ := (List.eq_nil_or_concat' back).resolve_left trails
    refine ⟨last, ?_, backBare last (by simp)⟩
    rw [← List.append_assoc, List.getLast?_concat]
  · have cut : opening <:+: [] ++ (front ++ (inside ++ (back ++ []))) := by simpa using found
    rcases infix_of_walls cut leads fun wall inFront =>
      isOpening.not_mem (frontBare wall inFront) with inNil | later
    · exact inNil.trans List.nil_infix
    · rcases infix_of_walls later trails fun wall inBack =>
        isOpening.not_mem (backBare wall inBack) with own | inNil
      · exact own.trans inText
      · exact inNil.trans List.nil_infix

theorem KeepsOpenings.prepend {front text new : List Char} (keeps : KeepsOpenings text new)
    (bare : ∀ char ∈ front, isOpeningChar char = false) : KeepsOpenings text (front ++ new) := by
  by_cases leads : front = []
  · simpa [leads] using keeps
  · refine ⟨?_, ?_, fun opening isOpening found => ?_⟩
    · obtain ⟨char, front, rfl⟩ := List.exists_cons_of_ne_nil leads
      exact ⟨char, rfl, bare char (by simp)⟩
    · obtain ⟨last, final, lastBare⟩ := keeps.last
      exact ⟨last, by rw [List.getLast?_append, final]; rfl, lastBare⟩
    · have cut : opening <:+: [] ++ (front ++ new) := found
      rcases infix_of_walls cut leads fun wall member => isOpening.not_mem (bare wall member) with
        inNil | later
      · exact inNil.trans List.nil_infix
      · exact keeps.inner opening isOpening later

theorem keepsOpenings_dollars {body text : List Char} (inText : body <:+: text) :
    KeepsOpenings text (Piece.join [Region.dollars body]) := by
  have whole : KeepsOpenings text (['$'] ++ body ++ ['$']) :=
    keepsOpenings_between (bare_of_all (by decide)) (bare_of_all (by decide)) (by simp) (by simp)
      inText
  simpa [Region.dollars] using whole

theorem keepsOpenings_displayBlock {newline indent body text : List Char}
    (lineEnd : IsLineEnd newline) (indented : ∀ char ∈ indent, Text.isIndent char = true)
    (inText : body <:+: text) (previous next : Option Char) :
    KeepsOpenings text (Piece.join (displayBlock newline indent body previous next)) := by
  obtain ⟨above, below, aboveEq, belowEq, whole⟩ :=
    join_displayBlock newline indent body previous next
  have newlineBare : ∀ char ∈ newline, isOpeningChar char = false :=
    fun char member => not_isOpeningChar_of_isBlank (isBlank_of_isLineEnd lineEnd char member)
  have indentBare : ∀ char ∈ indent, isOpeningChar char = false := fun char member =>
    not_isOpeningChar_of_isBlank (Text.isBlank_of_isIndent (indented char member))
  have aboveBare : ∀ char ∈ above, isOpeningChar char = false := by
    rcases aboveEq with rfl | rfl
    · simp
    · exact newlineBare
  have belowBare : ∀ char ∈ below, isOpeningChar char = false := by
    rcases belowEq with rfl | rfl
    · simp
    · exact newlineBare
  have marksBare : ∀ char ∈ ['$', '$'], isOpeningChar char = false := bare_of_all (by decide)
  rw [whole]
  refine keepsOpenings_between ?_ ?_ (by simp) (by simp) inText
  · simp only [List.forall_mem_append]
    exact ⟨⟨⟨⟨aboveBare, indentBare⟩, marksBare⟩, newlineBare⟩, indentBare⟩
  · simp only [List.forall_mem_append]
    exact ⟨⟨⟨newlineBare, indentBare⟩, marksBare⟩, belowBare⟩

theorem keepsOpenings_degree {digits sign text : List Char} (textEq : text = digits ++ sign) :
    KeepsOpenings text (Piece.join [Region.dollars (digits ++ degreeSign)]) := by
  have last : (Piece.join [Region.dollars (digits ++ degreeSign)]).getLast? = some '$' := by
    rw [Piece.join_cons, Piece.join_nil, List.append_nil, Region.dollars, List.getLast?_concat]
  refine ⟨⟨'$', rfl, by decide⟩, ⟨'$', last, by decide⟩, ?_⟩
  intro opening isOpening found
  have cut : opening <:+: ('$' :: digits) ++
      (['^', '{', '\\'] ++ ['c', 'i', 'r', 'c', '}', '$']) := by
    simpa [Region.dollars, degreeSign] using found
  have bare : ∀ wall ∈ ['^', '{', '\\'], isOpeningChar wall = false := bare_of_all (by decide)
  rcases infix_of_walls cut (by simp) fun wall member => isOpening.not_mem (bare wall member) with
    inNumber | inSign
  · have number : opening <:+: [] ++ (['$'] ++ digits) := by simpa using inNumber
    rcases infix_of_walls number (by simp) fun wall member =>
      isOpening.not_mem (by rw [List.mem_singleton.mp member]; decide) with inNil | inDigits
    · exact inNil.trans List.nil_infix
    · rw [textEq]
      exact inDigits.trans (List.prefix_append _ _).isInfix
  · obtain ⟨first, scheme, rfl, _⟩ := isOpening
    have colon : ':' ∈ ['c', 'i', 'r', 'c', '}', '$'] := inSign.subset (by simp)
    exact absurd colon (by decide)

theorem Stage.Replaces.keepsOpenings {stage : Stage} {before after : Option Char} {text : List Char}
    {regions : List Region} (replaced : stage.Replaces before text regions after) :
    KeepsOpenings text (Piece.join regions) ∨ (regions = [] ∧ StartsLine before) := by
  have stripped {inside : List Char} (inText : inside <:+: text) :
      Text.strip inside <:+: text := (Text.strip_isInfix inside).trans inText
  cases replaced with
  | squares lineEnd _ =>
      exact .inl (keepsOpenings_displayBlock lineEnd (by simp) (stripped ⟨_, _, rfl⟩) _ _)
  | @squareLines _ left lead inside trail right _ _ lineEnd _ _ _ _ _ =>
      have inText : inside <:+: left ++ '[' :: lead ++ inside ++ trail ++ ']' :: right :=
        ⟨left ++ '[' :: lead, trail ++ ']' :: right, by simp⟩
      exact .inl (keepsOpenings_displayBlock lineEnd (by simp) (stripped inText) _ _)
  | parens _ _ => exact .inl (keepsOpenings_dollars (stripped ⟨_, _, rfl⟩))
  | padded _ _ _ => exact .inl (keepsOpenings_dollars (stripped ⟨['$'], _, rfl⟩))
  | environment lineEnd _ indented =>
      exact .inl (keepsOpenings_displayBlock lineEnd indented (List.suffix_append _ _).isInfix _ _)
  | @hangingEnvironment newline indent body _ _ lineEnd _ _ indented =>
      have block : KeepsOpenings (indent ++ body)
          (Piece.join (displayBlock newline [] body indent.getLast? after)) :=
        keepsOpenings_displayBlock lineEnd (by simp) (List.suffix_append _ _).isInfix _ _
      refine .inl (block.prepend fun char member => ?_)
      exact not_isOpeningChar_of_isBlank (Text.isBlank_of_isIndent (indented char member))
  | @formula newline _ _ _ lineEnd _ _ _ _ =>
      have newlineBare : ∀ char ∈ newline, isOpeningChar char = false :=
        fun char member => not_isOpeningChar_of_isBlank (isBlank_of_isLineEnd lineEnd char member)
      have marksBare : ∀ char ∈ ['$', '$'], isOpeningChar char = false := bare_of_all (by decide)
      have block : KeepsOpenings text ((['$', '$'] ++ newline) ++ Text.stripRight text ++
          (newline ++ ['$', '$'])) :=
        keepsOpenings_between (List.forall_mem_append.mpr ⟨marksBare, newlineBare⟩)
          (List.forall_mem_append.mpr ⟨newlineBare, marksBare⟩) (by simp) (by simp)
          (Text.stripRight_isPrefix text).isInfix
      exact .inl (by simpa [Region.display] using block)
  | squareSpan _ _ => exact .inl (keepsOpenings_dollars (stripped ⟨['['], _, rfl⟩))
  | parenSpan _ _ => exact .inl (keepsOpenings_dollars (stripped ⟨['('], _, rfl⟩))
  | degree _ _ _ => exact .inl (keepsOpenings_degree rfl)
  | token _ => exact .inl (keepsOpenings_dollars List.infix_rfl)
  | blankLine _ starts _ => exact .inr ⟨rfl, starts⟩

theorem endsRun_of_blank {text : List Char}
    (blank : ∀ char ∈ text.head?, Text.isBlank char = true) : EndsRun text :=
  fun char head => isAddressChar_of_isBlank (blank char head)

theorem endsRun_displayBlock {newline : List Char} (lineEnd : IsLineEnd newline)
    (indent body : List Char) {before : Option Char} (inLine : ¬ StartsLine before)
    (after : Option Char) :
    EndsRun (Piece.join (displayBlock newline indent body before after)) := by
  have above : before.any (· != '\n') = true := by
    by_contra none
    exact inLine (startsLine_of_any (by simpa using none))
  rcases lineEnd with rfl | rfl <;> simp [EndsRun, displayBlock, above, Region.outside] <;> decide

/-- Inside of a line a conversion starts from a mark, or at a blank where it puts a blank. -/
theorem Stage.Replaces.marked_or_endsRun {stage : Stage} {before after : Option Char}
    {text : List Char} {regions : List Region} (replaced : stage.Replaces before text regions after)
    (inLine : ¬ StartsLine before) :
    IsMarked text ∨ (EndsRun text ∧ EndsRun (Piece.join regions)) := by
  cases replaced with
  | squares _ _ => exact .inl (isMarked_cons (by decide) (by decide))
  | squareLines _ _ starts _ _ _ => exact absurd starts inLine
  | parens _ _ => exact .inl (isMarked_cons (by decide) (by decide))
  | padded _ _ _ => exact .inl (isMarked_cons (by decide) (by decide))
  | @environment newline indent body _ _ lineEnd command indented =>
      cases indent with
      | nil =>
          obtain ⟨rest, rfl⟩ := List.head?_eq_some_iff.mp command.first
          exact .inl (isMarked_cons (by decide) (by decide))
      | cons first indent =>
          right
          refine ⟨endsRun_of_blank ?_, endsRun_displayBlock lineEnd _ _ inLine _⟩
          simpa using Text.isBlank_of_isIndent (indented first (by simp))
  | @hangingEnvironment newline indent body _ _ _ _ filled indented =>
      obtain ⟨first, indent, rfl⟩ := List.exists_cons_of_ne_nil filled
      have blank := Text.isBlank_of_isIndent (indented first (by simp))
      right
      refine ⟨endsRun_of_blank (by simpa using blank), endsRun_of_blank ?_⟩
      simpa [Region.outside] using blank
  | formula _ _ _ starts _ => exact absurd starts inLine
  | squareSpan _ _ => exact .inl (isMarked_cons (by decide) (by decide))
  | parenSpan _ _ => exact .inl (isMarked_cons (by decide) (by decide))
  | @degree digit others sign _ _ decimal signs digits =>
      left
      have digitOwn {char : Char} (isDigit : Text.isDecimal char = true) :
          isAddressChar char = true := by
        have notParen : char ≠ ')' := by
          rintro rfl
          exact absurd isDigit (by decide)
        simp [isAddressChar, Text.not_isBlank_of_isDecimal isDigit, notParen]
      have own : ∀ char ∈ digit :: others ++ ['^'], isAddressChar char = true := by
        simp only [List.forall_mem_append, List.forall_mem_cons]
        refine ⟨⟨digitOwn decimal, fun char member => ?_⟩, by decide, by simp⟩
        rcases digits char member with isDigit | rfl
        · exact digitOwn isDigit
        · decide
      rcases signs with rfl | rfl
      · exact ⟨digit :: others, '^', _, rfl, by decide, own⟩
      · exact ⟨digit :: others, '^', _, rfl, by decide, own⟩
  | token isToken =>
      left
      cases isToken with
      | command command =>
          obtain ⟨rest, rfl⟩ := List.head?_eq_some_iff.mp command.first
          exact isMarked_cons (by decide) (by decide)
      | @script letter mark inside last letterOwn isMark _ =>
          have own : isAddressChar letter = true :=
            isAddressChar_of_isOpeningChar (by
              simp [isOpeningChar, isSchemeChar, Char.isAlphanum, letterOwn])
          rcases isMark with rfl | rfl
          · exact ⟨[letter], '_', _, rfl, by decide, by simp [own]; decide⟩
          · exact ⟨[letter], '^', _, rfl, by decide, by simp [own]; decide⟩
  | blankLine _ starts _ => exact absurd starts inLine

/-- A scheme that opens an address here starts in a frozen region, and no mark stands outside from
here to the next blank or closing parenthesis. -/
def Link.GuardsHead (painted : Painted) : Prop :=
  (afterScheme? painted.text).isSome = true → (∀ stroke ∈ painted.head?, stroke.2 ≠ .outside) ∧
    ∀ stroke ∈ painted.takeWhile fun stroke => isAddressChar stroke.1,
      stroke.2 ≠ .outside ∨ stroke.1 ∉ marks

def Link.Guarded : Painted → Prop
  | [] => True
  | stroke :: rest => GuardsHead (stroke :: rest) ∧ Guarded rest

instance (painted : Painted) : Decidable (Link.GuardsHead painted) :=
  inferInstanceAs (Decidable (_ → _ ∧ _))

instance Link.decidableGuarded : (painted : Painted) → Decidable (Guarded painted)
  | [] => .isTrue trivial
  | stroke :: rest =>
      have := decidableGuarded rest
      decidable_of_iff (GuardsHead (stroke :: rest) ∧ Guarded rest) Iff.rfl

namespace Link.Guarded

theorem drop {front back : Painted} (guarded : Guarded (front ++ back)) : Guarded back := by
  induction front with
  | nil => exact guarded
  | cons stroke front ih => exact ih guarded.2

theorem append {front back : Painted} (guarded : Guarded back)
    (closed : ∀ rest, rest ≠ [] → rest <:+ Painted.text front →
      afterScheme? (rest ++ back.text) = none) : Guarded (front ++ back) := by
  induction front with
  | nil => exact guarded
  | cons stroke front ih =>
      obtain ⟨char, kind⟩ := stroke
      refine ⟨fun opened => ?_, ih fun rest notNil suffix => ?_⟩
      · have shut := closed (char :: Painted.text front) (by simp) List.suffix_rfl
        rw [← Painted.text_cons char kind, ← Painted.text_append, List.cons_append] at shut
        rw [List.append_eq, shut] at opened
        exact absurd opened (by decide)
      · exact closed rest notNil (suffix.trans (List.suffix_cons _ _))

theorem closed {text : List Char} {back : Painted}
    (guarded : Guarded (Painted.outside text ++ back)) {front rest : List Char}
    (split : text = front ++ rest) (notNil : rest ≠ []) :
    afterScheme? (rest ++ back.text) = none := by
  obtain ⟨char, rest, rfl⟩ := List.exists_cons_of_ne_nil notNil
  rw [split, Painted.outside_append, List.append_assoc] at guarded
  by_contra found
  have opened := Option.isSome_iff_ne_none.mpr found
  refine (guarded.drop.1 ?_).1 _ rfl rfl
  simpa using opened

end Link.Guarded

namespace Revised

variable {stage : Stage} {before after : Option Char} {old new : Painted}

theorem not_startsLine_of_isAddressChar {char : Char} (own : isAddressChar char = true) :
    ¬ StartsLine (some char) := by
  rintro (absent | feed)
  · simp at absent
  · rw [Option.some.inj feed] at own
    exact absurd own (by decide)

theorem takeWhile_strokes {run rest : Painted} (own : ∀ stroke ∈ run, isAddressChar stroke.1 = true)
    (ends : EndsRun rest.text) :
    (run ++ rest).takeWhile (fun stroke => isAddressChar stroke.1) = run := by
  rw [List.takeWhile_append_of_pos own]
  cases rest with
  | nil => simp
  | cons stroke rest =>
      have closed : isAddressChar stroke.1 = false := ends stroke.1 rfl
      rw [List.takeWhile_cons_of_neg (by simp [closed]), List.append_nil]

/-- Inside of a line what opens an address after a revision was there before it. -/
theorem opening_prefix {front rest : Painted} (inLine : ¬ StartsLine before)
    (revised : Revised stage.Replaces after before old (front ++ rest))
    (opens : ∀ stroke ∈ front, isOpeningChar stroke.1 = true) : front <+: old := by
  induction front generalizing before old with
  | nil => exact List.nil_prefix
  | cons stroke front ih =>
      have own := opens stroke (by simp)
      generalize newEq : stroke :: front ++ rest = new at revised
      cases revised with
      | nil => simp at newEq
      | keep later =>
          simp only [List.cons_append, List.cons.injEq] at newEq
          obtain ⟨rfl, rfl⟩ := newEq
          refine List.cons_prefix_cons.mpr ⟨rfl, ?_⟩
          exact ih (not_startsLine_of_isAddressChar (isAddressChar_of_isOpeningChar own)) later
            fun other member => opens other (by simp [member])
      | @replace _ _ regions _ new _ replaced _ =>
          rcases replaced.keepsOpenings with keeps | ⟨_, starts⟩
          · obtain ⟨char, head, bare⟩ := keeps.first
            have same := congrArg (fun painted => (Painted.text painted).head?) newEq
            obtain ⟨first, kind⟩ := stroke
            simp only [Painted.text_append, Painted.text_paint, Painted.text_cons,
              List.head?_append, List.head?_cons, head, Option.some_or, Option.some.injEq] at same
            rw [← same, own] at bare
            exact absurd bare (by decide)
          · exact absurd starts inLine

theorem mem_run {run rest rest' : Painted} {front back : List Char} {mark : Char}
    (split : Painted.outside (front ++ mark :: back) ++ rest' = run ++ rest)
    (own : ∀ char ∈ front ++ [mark], isAddressChar char = true) (ends : EndsRun rest.text) :
    (mark, .outside) ∈ run := by
  have cut : Painted.outside (front ++ [mark]) ++ (Painted.outside back ++ rest') =
      run ++ rest := by
    rw [← split]
    simp
  rcases List.append_eq_append_iff.mp cut with ⟨more, runEq, _⟩ | ⟨more, reachedEq, restEq⟩
  · rw [runEq]
    simp
  · cases more with
    | nil =>
        rw [List.append_nil] at reachedEq
        rw [← reachedEq]
        simp
    | cons stroke more =>
        have inFront : stroke.1 ∈ Painted.text (Painted.outside (front ++ [mark])) := by
          rw [reachedEq]
          simp [Painted.text]
        have bare := ends stroke.1 (by rw [restEq]; rfl)
        rw [own stroke.1 (by simpa using inFront)] at bare
        exact absurd bare (by decide)

theorem endsRun (inLine : ¬ StartsLine before)
    (revised : Revised stage.Replaces after before old new) (ends : EndsRun old.text) :
    EndsRun new.text := by
  cases revised with
  | nil => exact ends
  | keep _ => exact ends
  | @replace _ text regions _ new filled replaced _ =>
      obtain ⟨first, text, rfl⟩ := List.exists_cons_of_ne_nil filled
      have closed : isAddressChar first = false := ends first (by simp)
      rcases replaced.marked_or_endsRun inLine with
        ⟨front, mark, back, textEq, _, own⟩ | ⟨_, newEnds⟩
      · have reached : first ∈ front ++ [mark] := by
          cases front with
          | nil => simp [(List.cons.inj textEq).1]
          | cons other front => simp [(List.cons.inj textEq).1]
        rw [own first reached] at closed
        exact absurd closed (by decide)
      · rcases replaced.keepsOpenings with keeps | ⟨_, starts⟩
        · obtain ⟨char, head, _⟩ := keeps.first
          intro other otherHead
          simp only [Painted.text_append, Painted.text_paint, List.head?_append, head,
            Option.some_or, Option.some.injEq] at otherHead
          exact newEnds other (head.trans (by rw [otherHead]))
        · exact absurd starts inLine

/-- A run of address characters that no conversion starts from is kept up to its end. -/
theorem keeps_run {run rest : Painted} (inLine : ¬ StartsLine before)
    (revised : Revised stage.Replaces after before (run ++ rest) new)
    (own : ∀ stroke ∈ run, isAddressChar stroke.1 = true)
    (held : ∀ stroke ∈ run, stroke.2 ≠ .outside ∨ stroke.1 ∉ marks) (ends : EndsRun rest.text) :
    ∃ rest', new = run ++ rest' ∧ EndsRun rest'.text ∧
      Revised stage.Replaces after (Text.lastOr before run.text) rest rest' := by
  induction run generalizing before new with
  | nil => exact ⟨new, rfl, revised.endsRun inLine ends, revised⟩
  | cons stroke run ih =>
      generalize oldEq : stroke :: run ++ rest = old at revised
      cases revised with
      | nil => simp at oldEq
      | @keep _ char kind _ _ later =>
          simp only [List.cons_append, List.cons.injEq] at oldEq
          obtain ⟨rfl, rfl⟩ := oldEq
          obtain ⟨rest', rfl, ends', revised'⟩ :=
            ih (not_startsLine_of_isAddressChar (own (char, kind) (by simp))) later
              (fun other member => own other (by simp [member]))
              fun other member => held other (by simp [member])
          exact ⟨rest', rfl, ends', revised'⟩
      | @replace _ text _ old _ filled replaced _ =>
          rcases replaced.marked_or_endsRun inLine with
            ⟨front, mark, back, rfl, isMark, reached⟩ | ⟨closed, _⟩
          · rcases held _ (mem_run oldEq.symm reached ends) with frozen | bare
            · exact absurd rfl frozen
            · exact absurd isMark bare
          · obtain ⟨first, text, rfl⟩ := List.exists_cons_of_ne_nil filled
            simp only [List.cons_append, Painted.outside_cons, List.cons.injEq] at oldEq
            have opens := own stroke (by simp)
            rw [oldEq.1, closed first rfl] at opens
            exact absurd opens (by decide)

theorem opened_old {char : Char} (revised : Revised stage.Replaces after (some char) old new)
    (opened : (afterScheme? (char :: new.text)).isSome = true) :
    (afterScheme? (char :: old.text)).isSome = true := by
  obtain ⟨opening, isOpening, starts⟩ := isSome_afterScheme?.mp opened
  obtain ⟨first, rest, rfl⟩ : ∃ first rest, opening = first :: rest := by
    obtain ⟨first, scheme, rfl, _⟩ := isOpening
    exact ⟨first, _, rfl⟩
  obtain ⟨rfl, later⟩ := List.cons_prefix_cons.mp starts
  have chars := isOpening.chars
  -- The opening as strokes of the new text, which then stood in the old one.
  obtain ⟨tail, tailEq⟩ := later
  obtain ⟨front, back, rfl, rfl, _⟩ := List.map_eq_append_iff.mp tailEq.symm
  have inLine := not_startsLine_of_isAddressChar (isAddressChar_of_opened opened)
  have kept : front <+: old := revised.opening_prefix inLine fun stroke member =>
    chars stroke.1 (List.mem_cons_of_mem _ (List.mem_map_of_mem member))
  exact isSome_afterScheme?.mpr ⟨_, isOpening, List.cons_prefix_cons.mpr ⟨rfl, kept.map Prod.fst⟩⟩

theorem keeps_opened {char : Char} {kind : RegionKind}
    (revised : Revised stage.Replaces after (some char) old new)
    (guarded : GuardsHead ((char, kind) :: old))
    (opened : (afterScheme? (char :: old.text)).isSome = true) :
    kind ≠ .outside ∧ ∃ run rest rest', old = run ++ rest ∧ new = run ++ rest' ∧
      (∀ stroke ∈ (char, kind) :: run, isAddressChar stroke.1 = true ∧
        (stroke.2 ≠ .outside ∨ stroke.1 ∉ marks)) ∧
      EndsRun rest.text ∧ EndsRun rest'.text ∧
      Revised stage.Replaces after (Text.lastOr (some char) run.text) rest rest' := by
  obtain ⟨frozen, held⟩ := guarded opened
  have charOwn := isAddressChar_of_opened opened
  have whole := List.takeWhile_append_dropWhile
    (p := fun stroke : Char × RegionKind => isAddressChar stroke.1) (l := old)
  rw [List.takeWhile_cons, if_pos charOwn] at held
  have own : ∀ stroke ∈ old.takeWhile fun stroke => isAddressChar stroke.1,
      isAddressChar stroke.1 = true := fun stroke member =>
    List.mem_takeWhile_imp (p := fun stroke : Char × RegionKind => isAddressChar stroke.1) member
  have ends : EndsRun (Painted.text (old.dropWhile fun stroke => isAddressChar stroke.1)) := by
    intro other head
    obtain ⟨stroke, strokeHead, rfl⟩ := Option.map_eq_some_iff.mp (List.head?_map ▸ head)
    have stopped := List.head?_dropWhile_not (fun stroke => isAddressChar stroke.1) old
    rw [strokeHead] at stopped
    simpa using stopped
  generalize old.takeWhile _ = run at whole own held
  generalize old.dropWhile _ = rest at whole ends
  subst whole
  obtain ⟨rest', rfl, ends', later⟩ := revised.keeps_run (not_startsLine_of_isAddressChar charOwn)
    own (fun stroke member => held stroke (by simp [member])) ends
  refine ⟨frozen _ rfl, run, rest, rest', rfl, rfl, ?_, ends, ends', later⟩
  intro stroke member
  refine ⟨?_, held stroke member⟩
  rcases List.mem_cons.mp member with rfl | inRun
  · exact charOwn
  · exact own stroke inRun

theorem closed_replaced {text front rest : List Char} {regions : List Region}
    (replaced : stage.Replaces before text regions after) {old : Painted}
    (guarded : Guarded (Painted.outside text ++ old)) (split : Piece.join regions = front ++ rest)
    (notNil : rest ≠ []) (new : Painted) : afterScheme? (rest ++ new.text) = none := by
  rcases replaced.keepsOpenings with keeps | ⟨rfl, _⟩
  · by_contra found
    obtain ⟨opening, isOpening, starts⟩ :=
      isSome_afterScheme?.mp (Option.isSome_iff_ne_none.mpr found)
    obtain ⟨init, last, rfl⟩ := (List.eq_nil_or_concat' rest).resolve_left notNil
    obtain ⟨char, final, bare⟩ := keeps.last
    rw [split, ← List.append_assoc, List.getLast?_concat, Option.some.injEq] at final
    subst final
    rw [List.append_assoc] at starts
    have inside : opening <+: init := prefix_of_wall starts (isOpening.not_mem bare)
    have inNew : opening <:+: Piece.join regions := by
      rw [split]
      exact (inside.isInfix.trans (List.prefix_append _ _).isInfix).trans
        (List.suffix_append _ _).isInfix
    -- It would have stood outside before, where none does.
    obtain ⟨left, right, textEq⟩ := keeps.inner opening isOpening inNew
    have filled : opening ++ right ≠ [] := by
      obtain ⟨_, _, rfl, _⟩ := isOpening
      simp
    have closed := guarded.closed (by rw [← textEq, List.append_assoc]) filled
    have opened := isSome_afterScheme?.mpr ⟨opening, isOpening, right ++ old.text, rfl⟩
    rw [← List.append_assoc, closed] at opened
    exact absurd opened (by decide)
  · obtain ⟨_, rfl⟩ := List.append_eq_nil_iff.mp split.symm
    exact absurd rfl notNil

theorem guarded (revised : Revised stage.Replaces after before old new) (guarded : Guarded old) :
    Guarded new := by
  induction revised with
  | nil => exact guarded
  | @keep before char kind old new later ih =>
      refine ⟨fun opened => ?_, ih guarded.2⟩
      obtain ⟨frozen, run, rest, rest', rfl, rfl, held, _, ends', _⟩ :=
        later.keeps_opened guarded.1 (later.opened_old opened)
      refine ⟨fun stroke head => ?_, fun stroke member => ?_⟩
      · rw [List.head?_cons, Option.mem_some_iff] at head
        exact head ▸ frozen
      rw [← List.cons_append, takeWhile_strokes (fun other inRun => (held other inRun).1) ends']
        at member
      exact (held stroke member).2
  | @replace before text regions old new _ replaced _ ih =>
      refine (ih guarded.drop).append fun rest notNil suffix => ?_
      obtain ⟨front, split⟩ := suffix
      exact closed_replaced replaced guarded (by simpa using split.symm) notNil new

theorem findAll_closed {front rest : List Char}
    (closed : ∀ suffix, suffix ≠ [] → suffix <:+ front → afterScheme? (suffix ++ rest) = none) :
    Text.findAll address (front ++ rest) = Text.findAll address rest := by
  induction front with
  | nil => rfl
  | cons char front ih =>
      have own : afterScheme? (char :: (front ++ rest)) = none :=
        closed (char :: front) (by simp) List.suffix_rfl
      rw [List.cons_append, findAll_of_none (address_of_closed own)]
      exact ih fun suffix notNil inFront => closed suffix notNil (inFront.trans (List.suffix_cons _ _))

/-- A revision of guarded text changes none of its addresses and puts no new one in. -/
theorem findAll_address {before : Option Char} {old new : Painted}
    (revised : Revised stage.Replaces after before old new) (guarded : Guarded old) :
    Text.findAll address new.text = Text.findAll address old.text := by
  cases revised with
  | nil => rfl
  | @keep _ char kind old new later =>
      have step (absent : address none (char :: new.text) = none)
          (absent' : address none (char :: old.text) = none) :
          Text.findAll address (char :: new.text) = Text.findAll address (char :: old.text) := by
        rw [findAll_of_none absent, findAll_of_none absent', findAll_address later guarded.2]
      by_cases opened : (afterScheme? (char :: old.text)).isSome = true
      · obtain ⟨_, run, rest, rest', rfl, rfl, held, ends, ends', revised⟩ :=
          later.keeps_opened guarded.1 opened
        have own : ∀ other ∈ char :: Painted.text run, isAddressChar other = true := by
          intro other member
          have inStrokes : other ∈ ((char, kind) :: run).map Prod.fst := member
          obtain ⟨stroke, inRun, rfl⟩ := List.mem_map.mp inStrokes
          exact (held stroke inRun).1
        have whole (rest : Painted) : char :: Painted.text (run ++ rest) =
            (char :: Painted.text run) ++ rest.text := by simp
        cases found : address none (char :: Painted.text run) with
        | none =>
            refine step ?_ ?_
            · rw [whole, address_run own ends', found]
            · rw [whole, address_run own ends, found]
        | some value =>
            obtain ⟨size, ⟨⟩⟩ := value
            rw [Painted.text_cons, Painted.text_cons, whole, whole, findAll_run own ends found,
              findAll_run own ends' found, findAll_address revised guarded.2.drop]
      · have closed : afterScheme? (char :: old.text) = none := by simpa using opened
        have closed' : afterScheme? (char :: new.text) = none := by
          by_contra found
          exact opened (later.opened_old (Option.isSome_iff_ne_none.mpr found))
        exact step (address_of_closed closed') (address_of_closed closed)
  | @replace _ text regions old new filled replaced later =>
      rw [Painted.text_append, Painted.text_append, Painted.text_paint, Painted.text_outside,
        findAll_closed, findAll_closed, findAll_address later guarded.drop]
      · rintro rest notNil ⟨front, split⟩
        exact guarded.closed split.symm notNil
      · rintro rest notNil ⟨front, split⟩
        exact closed_replaced replaced guarded split.symm notNil new
termination_by old.length
decreasing_by
  · simp_all
  · subst_vars
    simp only [List.length_cons, List.length_append]
    omega
  · have positive := List.length_pos_iff.mpr filled
    simp_all [Painted.outside]

end Revised

theorem Review.mem_missingAddresses {source converted address : List Char} :
    address ∈ missingAddresses source converted ↔
      address ∈ Text.findAll Link.address source ∧
        address ∉ Text.findAll Link.address converted := by
  simp [missingAddresses, Text.sort, List.mem_mergeSort, List.mem_eraseDups]

theorem Review.checkAddresses_eq_nil_iff {source converted : List Char} :
    checkAddresses source converted = [] ↔
      Text.findAll Link.address source ⊆ Text.findAll Link.address converted := by
  have silent : checkAddresses source converted = [] ↔ missingAddresses source converted = [] := by
    unfold checkAddresses
    split <;> simp_all
  rw [silent, List.eq_nil_iff_forall_not_mem]
  simp only [mem_missingAddresses, not_and, not_not, List.subset_def]

/-- The review finds the same addresses in a guarded document before and after a conversion, so it
misses none of them. -/
theorem findAll_address_convert (options : Options) (text : List Char)
    (guarded : Guarded (Piece.paint (Document.regions text))) :
    Text.findAll address (convert options text) = Text.findAll address text ∧
      Review.checkAddresses text (convert options text) = [] := by
  have same : Text.findAll address (convert options text) = Text.findAll address text := by
    rw [convert, ← Painted.text_paint]
    refine (preserved_convertedRegions (motive := fun painted => Guarded painted ∧
      Text.findAll address painted.text = Text.findAll address text) ?_ ?_).2
    · intro stage _ old new revised kept
      exact ⟨revised.guarded kept.1, (revised.findAll_address kept.1).trans kept.2⟩
    · exact ⟨guarded, by rw [Painted.text_paint, Document.join_regions]⟩
  exact ⟨same, Review.checkAddresses_eq_nil_iff.mpr (same ▸ List.Subset.refl _)⟩

/-- The address is frozen up to the full stop, from which no conversion starts. -/
theorem findAll_address_convert_code :
    Text.findAll address (convert {} "\x60http://a.b\x60. \\(x\\)".toList) =
        Text.findAll address "\x60http://a.b\x60. \\(x\\)".toList ∧
      Review.checkAddresses "\x60http://a.b\x60. \\(x\\)".toList
        (convert {} "\x60http://a.b\x60. \\(x\\)".toList) = [] :=
  findAll_address_convert {} _ (by decide +kernel)

/-- Inline code ends inside of an address, and math that is glued to it is converted. -/
theorem checkAddresses_convert_ne :
    Review.checkAddresses "x http://a\x60b\x60\\(c\\)".toList
      (convert {} "x http://a\x60b\x60\\(c\\)".toList) ≠ [] := by
  rw [ne_eq, Review.checkAddresses_eq_nil_iff]
  decide +kernel

end DollarMath
