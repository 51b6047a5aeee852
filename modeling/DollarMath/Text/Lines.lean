import DollarMath.Text.Blank

/-!
Two ways to cut a text into lines, both keeping the line ends: at every line break of Unicode, and
at line feeds alone. Joining the lines gives the text back.
-/

namespace DollarMath.Text

def isLineBreak (char : Char) : Bool :=
  let code := char.toNat
  (10 ≤ code && code ≤ 13) || (28 ≤ code && code ≤ 30) || code == 0x85 ||
  code == 0x2028 || code == 0x2029

def consLine (char : Char) : List (List Char) → List (List Char)
  | [] => [[char]]
  | line :: lines => (char :: line) :: lines

/-- The lines of a text at every kind of line break; carriage return and line feed together are one
break. -/
def lines : List Char → List (List Char)
  | [] => []
  | '\r' :: '\n' :: rest => ['\r', '\n'] :: lines rest
  | char :: rest => if isLineBreak char then [char] :: lines rest else consLine char (lines rest)

def physicalLines : List Char → List (List Char)
  | [] => []
  | char :: rest =>
    if char = '\n' then [char] :: physicalLines rest else consLine char (physicalLines rest)

def splitAt (mark : Char) : List Char → List (List Char)
  | [] => [[]]
  | char :: rest =>
    if char = mark then [] :: splitAt mark rest else consLine char (splitAt mark rest)

def splitFeeds (text : List Char) : List (List Char) :=
  splitAt '\n' text

def unifyReturns : List Char → List Char
  | [] => []
  | '\r' :: '\n' :: rest => '\n' :: unifyReturns rest
  | char :: rest => (if char = '\r' then '\n' else char) :: unifyReturns rest

/-- A line without the carriage returns and line feeds at its end. -/
def lineBody (line : List Char) : List Char :=
  dropRightWhile isReturn line

def lineReturn (line : List Char) : List Char :=
  line.drop (lineBody line).length

/-- The lines above the first one that passes, that line, and the lines below it. -/
def splitAtLine? (passes : List Char → Bool) :
    List (List Char) → Option (List (List Char) × List Char × List (List Char))
  | [] => none
  | line :: rest =>
    if passes line then some ([], line, rest)
    else (splitAtLine? passes rest).map fun parts => (line :: parts.1, parts.2)

/-- A block goes from a line that says what closes it to the first line below that does. -/
def block? (closer? : List Char → Option (List Char → Bool)) (line : List Char)
    (rest : List (List Char)) : Option (List (List Char) × List Char × List (List Char)) :=
  (closer? line).bind fun closes => splitAtLine? closes rest

theorem splitAtLine?_eq_some_iff {passes : List Char → Bool} {lines inside after : List (List Char)}
    {last : List Char} :
    splitAtLine? passes lines = some (inside, last, after) ↔
      lines = inside ++ last :: after ∧ (∀ line ∈ inside, passes line = false) ∧
        passes last = true := by
  induction lines generalizing inside with
  | nil => simp [splitAtLine?]
  | cons line rest ih =>
    rw [splitAtLine?]
    split
    next closed =>
      constructor
      · intro same
        simp only [Option.some.injEq, Prod.mk.injEq] at same
        obtain ⟨rfl, rfl, rfl⟩ := same
        exact ⟨rfl, by simp, closed⟩
      · rintro ⟨whole, unclosed, ends⟩
        cases inside with
        | nil =>
          simp only [List.nil_append, List.cons.injEq] at whole
          obtain ⟨rfl, rfl⟩ := whole
          rfl
        | cons other inside =>
          simp only [List.cons_append, List.cons.injEq] at whole
          have own := unclosed other (by simp)
          rw [← whole.1, closed] at own
          exact absurd own (by decide)
    next notClosed =>
      constructor
      · intro same
        obtain ⟨⟨others, final, left⟩, later, same⟩ := Option.map_eq_some_iff.mp same
        simp only [Prod.mk.injEq] at same
        obtain ⟨rfl, rfl, rfl⟩ := same
        obtain ⟨rfl, unclosed, ends⟩ := ih.mp later
        exact ⟨rfl, List.forall_mem_cons.mpr ⟨by simpa using notClosed, unclosed⟩, ends⟩
      · rintro ⟨whole, unclosed, ends⟩
        cases inside with
        | nil =>
          simp only [List.nil_append, List.cons.injEq] at whole
          rw [whole.1] at notClosed
          exact absurd ends notClosed
        | cons other inside =>
          simp only [List.cons_append, List.cons.injEq] at whole
          obtain ⟨rfl, rfl⟩ := whole
          rw [ih.mpr ⟨rfl, fun next member => unclosed next (by simp [member]), ends⟩]
          rfl

theorem block?_eq_some_iff {closer? : List Char → Option (List Char → Bool)}
    {line last : List Char} {rest inside after : List (List Char)} :
    block? closer? line rest = some (inside, last, after) ↔
      ∃ closes, closer? line = some closes ∧ rest = inside ++ last :: after ∧
        (∀ other ∈ inside, closes other = false) ∧ closes last = true := by
  simp only [block?, Option.bind_eq_some_iff, splitAtLine?_eq_some_iff]

theorem block?_length {closer? : List Char → Option (List Char → Bool)} {line last : List Char}
    {rest inside after : List (List Char)}
    (found : block? closer? line rest = some (inside, last, after)) :
    after.length < rest.length := by
  obtain ⟨_, _, rfl, _⟩ := block?_eq_some_iff.1 found
  simp only [List.length_append, List.length_cons]
  omega

theorem flatten_consLine (char : Char) (parts : List (List Char)) :
    (consLine char parts).flatten = char :: parts.flatten := by
  cases parts <;> simp [consLine]

@[simp] theorem flatten_lines (text : List Char) : (lines text).flatten = text := by
  fun_induction lines text with
  | case1 => rfl
  | case2 rest ih => simp [ih]
  | case3 char rest _ _ ih => simp [ih]
  | case4 char rest _ _ ih => simp [flatten_consLine, ih]

@[simp] theorem flatten_physicalLines (text : List Char) :
    (physicalLines text).flatten = text := by
  fun_induction physicalLines text with
  | case1 => rfl
  | case2 rest ih => simp [ih]
  | case3 char rest _ ih => simp [flatten_consLine, ih]

theorem dropRightWhile_append_drop (drop : Char → Bool) (text : List Char) :
    dropRightWhile drop text ++ text.drop (dropRightWhile drop text).length = text := by
  have kept : dropRightWhile drop text <+: text := by
    rw [← List.reverse_suffix]
    simpa [dropRightWhile] using List.dropWhile_suffix drop
  obtain ⟨rest, whole⟩ := kept
  generalize dropRightWhile drop text = start at whole ⊢
  subst whole
  simp

theorem lineBody_append_lineReturn (line : List Char) : lineBody line ++ lineReturn line = line :=
  dropRightWhile_append_drop isReturn line

end DollarMath.Text
