import DollarMath.Document.Fence
import DollarMath.Proofs.Lists
import DollarMath.Proofs.Region.Fused
import DollarMath.Proofs.Text.Lines

/-!
A text as blocks of fenced code on lines of their own with prose between them, and when such a text
is read back so.
-/

namespace DollarMath

namespace Text

theorem lineBody_append {line ending : List Char}
    (returns : ∀ char ∈ ending, isReturn char = true) :
    lineBody (line ++ ending) = lineBody line := by
  unfold lineBody dropRightWhile
  rw [List.reverse_append, List.dropWhile_append_of_pos]
  intro char member
  exact returns char (List.mem_reverse.mp member)

theorem lineBody_of_unbroken {line : List Char} (unbroken : ∀ char ∈ line, isReturn char = false) :
    lineBody line = line := by
  have parts := lineBody_append_lineReturn line
  cases returnEq : lineReturn line with
  | nil => rwa [returnEq, List.append_nil] at parts
  | cons char rest =>
      have own := @isReturn_of_mem_lineReturn line char (by simp [returnEq])
      have inLine : char ∈ line := by
        rw [← parts, returnEq]
        simp
      rw [unbroken char inLine] at own
      exact absurd own (by decide)

theorem exists_ending {text : List Char} {first : Char} (head : text.head? = some first)
    (isRet : isReturn first = true) :
    ∃ ending rest, text = ending ++ rest ∧ (∀ char ∈ ending, isReturn char = true) ∧
      lines ending = [ending] ∧
      ∃ last, ending.getLast? = some last ∧ isLineBreak last = true ∧
        (last = '\r' → rest.head? ≠ some '\n') := by
  obtain ⟨rest, rfl⟩ := List.head?_eq_some_iff.mp head
  simp only [isReturn, Bool.or_eq_true, beq_iff_eq] at isRet
  rcases isRet with rfl | rfl
  · by_cases paired : rest.head? = some '\n'
    · obtain ⟨others, rfl⟩ := List.head?_eq_some_iff.mp paired
      exact ⟨['\r', '\n'], others, rfl, List.all_eq_true.mp rfl, rfl, '\n', rfl, by decide, by simp⟩
    · exact ⟨['\r'], rest, rfl, List.all_eq_true.mp rfl, rfl, '\r', rfl, by decide, fun _ => paired⟩
  · exact ⟨['\n'], rest, rfl, List.all_eq_true.mp rfl, rfl, '\n', rfl, by decide, by simp⟩

theorem lines_unbroken_append {text ending : List Char}
    (unbroken : ∀ char ∈ text, isLineBreak char = false) (single : lines ending = [ending]) :
    lines (text ++ ending) = [text ++ ending] := by
  induction text with
  | nil => exact single
  | cons char text ih =>
      have own := unbroken char (by simp)
      have unpaired : char = '\r' → (text ++ ending).head? ≠ some '\n' := by
        rintro rfl
        exact absurd own (by decide)
      rw [List.cons_append, lines_cons unpaired, own,
        ih fun other member => unbroken other (by simp [member])]
      rfl

end Text

namespace Fence

def isFenceChar (char : Char) : Bool :=
  char == '\x60' || Text.isIndent char

theorem not_isLineBreak_of_isFenceChar {char : Char} (fence : isFenceChar char = true) :
    Text.isLineBreak char = false := by
  simp only [isFenceChar, Text.isIndent, Bool.or_eq_true, beq_iff_eq] at fence
  rcases fence with rfl | rfl | rfl
  all_goals decide

theorem exists_ticks {line : List Char} (wide : 3 ≤ (ticks line).1) :
    ∃ indent marks, Text.lineBody line = indent ++ marks ++ (ticks line).2 ∧ marks ≠ [] ∧
      (∀ char ∈ indent, Text.isIndent char = true) ∧ ∀ char ∈ marks, char = '\x60' := by
  unfold ticks at wide ⊢
  dsimp only at wide ⊢
  generalize Text.lineBody line = body at wide ⊢
  have spaces := List.takeWhile_append_dropWhile (p := (· == ' ')) (l := body)
  have marks := List.takeWhile_append_dropWhile (p := (· == '\x60'))
    (l := body.dropWhile (· == ' '))
  split at wide
  next few =>
    rw [if_pos few]
    dsimp only at wide ⊢
    refine ⟨body.takeWhile (· == ' '), (body.dropWhile (· == ' ')).takeWhile (· == '\x60'),
      ?_, ?_, ?_, ?_⟩
    · rw [List.append_assoc, marks, spaces]
    · intro isNil
      rw [isNil] at wide
      simp at wide
    · intro char member
      have own := List.mem_takeWhile_imp member
      simp only [beq_iff_eq] at own
      rw [own]
      decide
    · intro char member
      simpa using List.mem_takeWhile_imp member
  next => simp at wide

structure IsFenced (block : List Char) : Prop where
  starts : ∃ indent rest, block = indent ++ '\x60' :: rest ∧
    ∀ char ∈ indent, Text.isIndent char = true
  ends : ∃ rest indent, block = rest ++ '\x60' :: indent ∧
    ∀ char ∈ indent, Text.isIndent char = true

theorem IsFenced.head {block : List Char} (fenced : IsFenced block) :
    ∃ char, block.head? = some char ∧ isFenceChar char = true := by
  obtain ⟨indent, rest, rfl, isIndent⟩ := fenced.starts
  cases indent with
  | nil => exact ⟨'\x60', rfl, by decide⟩
  | cons char indent => exact ⟨char, rfl, by simp [isFenceChar, isIndent char (by simp)]⟩

theorem IsFenced.getLast {block : List Char} (fenced : IsFenced block) :
    ∃ char, block.getLast? = some char ∧ isFenceChar char = true := by
  obtain ⟨rest, indent, rfl, isIndent⟩ := fenced.ends
  obtain rfl | ⟨init, char, rfl⟩ := List.eq_nil_or_concat' indent
  · exact ⟨'\x60', List.getLast?_concat, by decide⟩
  · refine ⟨char, ?_, by simp [isFenceChar, isIndent char (by simp)]⟩
    rw [← List.cons_append, ← List.append_assoc, List.getLast?_concat]

theorem IsFenced.ne_nil {block : List Char} (fenced : IsFenced block) : block ≠ [] := by
  rintro rfl
  obtain ⟨char, isHead, _⟩ := fenced.head
  simp at isHead

theorem opens?_starts {line : List Char} {width : Nat} (opened : opens? line = some width) :
    ∃ indent rest, line = indent ++ '\x60' :: rest ∧
      ∀ char ∈ indent, Text.isIndent char = true := by
  unfold opens? at opened
  dsimp only at opened
  split at opened
  next wide =>
    simp only [Bool.and_eq_true, decide_eq_true_eq] at wide
    obtain ⟨indent, marks, whole, filled, isIndent, areTicks⟩ := exists_ticks wide.1
    obtain ⟨mark, others, rfl⟩ := List.exists_cons_of_ne_nil filled
    obtain rfl := areTicks mark (by simp)
    refine ⟨indent, others ++ (ticks line).2 ++ Text.lineReturn line, ?_, isIndent⟩
    have parts := Text.lineBody_append_lineReturn line
    rw [whole] at parts
    simpa using parts.symm
  next => simp at opened

theorem opens?_eq_none {line : List Char} (free : '\x60' ∉ line) : opens? line = none := by
  cases opened : opens? line with
  | none => rfl
  | some width =>
      obtain ⟨indent, rest, rfl, _⟩ := opens?_starts opened
      exact absurd (by simp) free

theorem closes_ends {width : Nat} {line : List Char} (closed : closes width line = true) :
    ∃ rest indent, Text.lineBody line = rest ++ '\x60' :: indent ∧
      ∀ char ∈ indent, Text.isIndent char = true := by
  unfold closes at closed
  simp only [Bool.and_eq_true, decide_eq_true_eq, List.all_eq_true] at closed
  obtain ⟨indent, marks, whole, filled, _, areTicks⟩ := exists_ticks closed.1.1
  obtain ⟨others, mark, rfl⟩ := (List.eq_nil_or_concat' marks).resolve_left filled
  obtain rfl := areTicks mark (by simp)
  exact ⟨indent ++ others, (ticks line).2, by simp [whole], closed.2⟩

theorem closes_body {width : Nat} {line : List Char} (closed : closes width line = true) :
    Text.lineBody line ≠ [] ∧ ∀ char ∈ Text.lineBody line, isFenceChar char = true := by
  unfold closes at closed
  simp only [Bool.and_eq_true, decide_eq_true_eq, List.all_eq_true] at closed
  obtain ⟨indent, marks, whole, filled, isIndent, areTicks⟩ := exists_ticks closed.1.1
  rw [whole]
  refine ⟨by simp [filled], ?_⟩
  intro char member
  rcases List.mem_append.mp member with first | last
  · rcases List.mem_append.mp first with inIndent | inMarks
    · simp [isFenceChar, isIndent char inIndent]
    · simp [isFenceChar, areTicks char inMarks]
  · simp [isFenceChar, closed.2 char last]

theorem closes_congr {first second : List Char} (width : Nat)
    (same : Text.lineBody first = Text.lineBody second) :
    closes width first = closes width second := by
  unfold closes ticks
  rw [same]

/-- A line that opens a fence with the lines up to the first one that closes it, the end of that
line apart. -/
def IsBlock (block : List Char) : Prop :=
  ∃ width first inside last, block = first ++ inside.flatten ++ last ∧
    Text.AreLines (first :: (inside ++ [last])) ∧ opens? first = some width ∧
    (∀ line ∈ inside, closes width line = false) ∧ closes width last = true ∧
    Text.lineBody last = last

theorem IsBlock.isFenced {block : List Char} (isBlock : IsBlock block) : IsFenced block := by
  obtain ⟨width, first, inside, last, rfl, _, opened, _, closed, bare⟩ := isBlock
  obtain ⟨indent, rest, rfl, isIndent⟩ := opens?_starts opened
  obtain ⟨front, right, lastEq, isRight⟩ := closes_ends closed
  rw [bare] at lastEq
  refine ⟨⟨indent, rest ++ inside.flatten ++ last, by simp, isIndent⟩,
    indent ++ '\x60' :: rest ++ inside.flatten ++ front, right, ?_, isRight⟩
  rw [lastEq]
  simp

theorem IsBlock.head {block : List Char} (isBlock : IsBlock block) :
    ∃ char, block.head? = some char ∧ isFenceChar char = true :=
  isBlock.isFenced.head

theorem IsBlock.getLast {block : List Char} (isBlock : IsBlock block) :
    ∃ char, block.getLast? = some char ∧ isFenceChar char = true :=
  isBlock.isFenced.getLast

def Encloses (first : List Char) (inside : List (List Char)) (last : List Char) : Prop :=
  ∃ width, opens? first = some width ∧ (∀ line ∈ inside, closes width line = false) ∧
    closes width last = true

theorem block?_eq_some_iff {first last : List Char} {rest inside after : List (List Char)} :
    Text.block? closer? first rest = some (inside, last, after) ↔
      rest = inside ++ last :: after ∧ Encloses first inside last := by
  simp only [Text.block?_eq_some_iff, closer?, Option.map_eq_some_iff, Encloses]
  constructor
  · rintro ⟨_, ⟨width, opened, rfl⟩, whole, unclosed, closed⟩
    exact ⟨whole, width, opened, unclosed, closed⟩
  · rintro ⟨whole, width, opened, unclosed, closed⟩
    exact ⟨_, ⟨width, opened, rfl⟩, whole, unclosed, closed⟩

theorem block?_eq_none_iff {first : List Char} {rest : List (List Char)} :
    Text.block? closer? first rest = none ↔
      ∀ width, opens? first = some width → ∀ later ∈ rest, closes width later = false := by
  simp only [Text.block?_eq_none_iff, closer?, Option.map_eq_some_iff]
  constructor
  · intro shut width opened
    exact shut _ ⟨width, opened, rfl⟩
  · rintro shut _ ⟨width, opened, rfl⟩
    exact shut width opened

/-- The segments of a text before neighbours of one kind are joined: each line of prose by itself,
and the return that ends a block with it. -/
def cut : List (List Char) → List Segment
  | [] => []
  | line :: rest =>
    match _found : Text.block? closer? line rest with
    | some (inside, last, after) =>
      ⟨.code, line ++ inside.flatten ++ Text.lineBody last⟩ :: ⟨.prose, Text.lineReturn last⟩ ::
        cut after
    | none => ⟨.prose, line⟩ :: cut rest
termination_by lines => lines.length
decreasing_by
  · have := Text.block?_length _found
    simp only [List.length_cons]
    omega
  · simp

theorem join_cut (lines : List (List Char)) : Piece.join (cut lines) = lines.flatten := by
  fun_induction cut lines with
  | case1 => rfl
  | case2 line rest inside last after found ih =>
      have body := Text.lineBody_append_lineReturn last
      rw [Piece.join_cons, Piece.join_cons, ih, (block?_eq_some_iff.mp found).1]
      simp only [List.flatten_cons, List.flatten_append, List.append_assoc]
      rw [← List.append_assoc (Text.lineBody last), body]
  | case3 line rest _ ih => rw [Piece.join_cons, ih, List.flatten_cons]

abbrev Parts := List (List Char × List Char)

def segmentsOf (parts : Parts) : List Segment :=
  parts.flatMap fun part => [⟨.code, part.1⟩, ⟨.prose, part.2⟩]

def assemble (front : List Char) (parts : Parts) : List Segment :=
  ⟨.prose, front⟩ :: segmentsOf parts

@[simp] theorem segmentsOf_nil : segmentsOf [] = [] := rfl

@[simp] theorem segmentsOf_cons (block prose : List Char) (parts : Parts) :
    segmentsOf ((block, prose) :: parts) = ⟨.code, block⟩ :: ⟨.prose, prose⟩ :: segmentsOf parts :=
  rfl

def AtLine (before : Option Char) : Prop :=
  ∀ char, before = some char → Text.isLineBreak char = true

def Framed : (before : Option Char) → Parts → Prop
  | _, [] => True
  | before, (block, prose) :: parts =>
      AtLine before ∧ IsBlock block ∧
        (∀ char, prose.head? = some char → Text.isReturn char = true) ∧
        Framed (Text.lastOr block.getLast? prose) parts

theorem isBlock_of_encloses {line last : List Char} {inside after : List (List Char)}
    (areLines : Text.AreLines (line :: (inside ++ last :: after)))
    (encloses : Encloses line inside last) :
    IsBlock (line ++ inside.flatten ++ Text.lineBody last) := by
  obtain ⟨width, opened, unclosed, ends⟩ := encloses
  obtain ⟨filled, fence⟩ := closes_body ends
  have unbroken : ∀ char ∈ Text.lineBody last, Text.isLineBreak char = false :=
    fun char member => not_isLineBreak_of_isFenceChar (fence char member)
  have bare : Text.lineBody (Text.lineBody last) = Text.lineBody last :=
    Text.lineBody_of_unbroken fun char member =>
      Text.not_isReturn_of_not_isLineBreak (unbroken char member)
  refine ⟨width, line, inside, Text.lineBody last, rfl, ?_, opened, unclosed,
    (closes_congr width bare).trans ends, bare⟩
  have split : line :: (inside ++ last :: after) = (line :: inside) ++ last :: after := rfl
  rw [split] at areLines
  refine areLines.cut_last (Text.lines_of_unbroken filled unbroken) ?_
  have parts := Text.lineBody_append_lineReturn last
  obtain ⟨first, rest, bodyEq⟩ := List.exists_cons_of_ne_nil filled
  rw [bodyEq] at parts ⊢
  rw [← parts]
  rfl

theorem lineReturn_of_closes {width : Nat} {last next : List Char} {after : List (List Char)}
    (areLines : Text.AreLines (last :: next :: after)) (ends : closes width last = true) :
    Text.lineReturn last ≠ [] ∧
      ∀ before, AtLine (Text.lastOr before (Text.lineReturn last)) := by
  have parts := Text.lineBody_append_lineReturn last
  obtain ⟨char, lastEq, isBreak⟩ := (List.isChain_cons_cons.mp areLines.broken).1.ended
  have endingFilled : Text.lineReturn last ≠ [] := by
    intro isNil
    rw [isNil, List.append_nil] at parts
    have own := (closes_body ends).2 char (by rw [parts]; exact List.mem_of_getLast? lastEq)
    rw [not_isLineBreak_of_isFenceChar own] at isBreak
    exact absurd isBreak (by decide)
  have endingLast : (Text.lineReturn last).getLast? = some char := by
    rw [← parts, List.getLast?_append_of_ne_nil _ endingFilled] at lastEq
    exact lastEq
  refine ⟨endingFilled, fun before other same => ?_⟩
  rw [Text.lastOr_of_ne_nil endingFilled, endingLast, Option.some.injEq] at same
  exact same ▸ isBreak

theorem spansFrom_of_some {start offset : Nat} {line last : List Char}
    {rest inside after : List (List Char)}
    (found : Text.block? closer? line rest = some (inside, last, after)) :
    let stop := offset + line.length + inside.flatten.length + (Text.lineBody last).length
    spansFrom start offset (line :: rest) = proseSpan start offset ++
      (.code, ⟨offset, stop⟩) :: spansFrom stop (stop + (Text.lineReturn last).length) after := by
  rw [spansFrom]
  split
  next found' =>
    rw [found] at found'
    obtain ⟨rfl, rfl, rfl⟩ := by simpa using found'
    rfl
  next unfound => simp [found] at unfound

theorem spansFrom_of_none {start offset : Nat} {line : List Char} {rest : List (List Char)}
    (noBlock : Text.block? closer? line rest = none) :
    spansFrom start offset (line :: rest) = spansFrom start (offset + line.length) rest := by
  rw [spansFrom]
  split
  next found => simp [noBlock] at found
  next => rfl

theorem toPiece_proseSpan {text before stretch rest : List Char}
    (whole : text = before ++ (stretch ++ rest)) :
    (proseSpan before.length (before ++ stretch).length).map
        (fun part => (Located.ofSpan text part).toPiece) = Piece.fuse [⟨.prose, stretch⟩] := by
  cases stretch with
  | nil => simp [proseSpan, Piece.fuse, Piece.attach]
  | cons char stretch =>
      have slice := @Span.slice_append before (char :: stretch) rest
      rw [← whole, ← List.length_append] at slice
      have filled : before.length < (before ++ char :: stretch).length := by simp
      rw [proseSpan, if_pos filled, List.map_singleton, Located.ofSpan, slice]
      rfl

theorem fuse_append_code {prose block : List Char} {segments : List Segment} :
    Piece.fuse [⟨.prose, prose⟩] ++ ⟨.code, block⟩ :: segments =
      Piece.attach ⟨.prose, prose⟩ (⟨.code, block⟩ :: segments) := by
  cases prose <;> simp [Piece.fuse, Piece.attach]

theorem fuse_code {block prose : List Char} {segments : List Segment} (filled : block ≠ [])
    (apart : prose ≠ [] ∨ Piece.fuse segments = []) :
    Piece.fuse (⟨.code, block⟩ :: ⟨.prose, prose⟩ :: segments) =
      ⟨.code, block⟩ :: Piece.fuse (⟨.prose, prose⟩ :: segments) := by
  simp only [Piece.fuse_cons]
  rcases apart with proseFilled | alone
  · cases Piece.fuse segments with
    | nil => simp [Piece.attach, filled, proseFilled]
    | cons next rest =>
        obtain ⟨kind, text⟩ := next
        cases kind <;> simp [Piece.attach, filled, proseFilled]
  · rw [alone]
    cases prose <;> simp [Piece.attach, filled]

theorem toPiece_spansFrom {text before stretch : List Char} {lines : List (List Char)}
    (areLines : Text.AreLines lines) (whole : text = before ++ (stretch ++ lines.flatten)) :
    (spansFrom before.length (before ++ stretch).length lines).map
        (fun part => (Located.ofSpan text part).toPiece) =
      Piece.fuse (⟨.prose, stretch⟩ :: cut lines) := by
  fun_induction cut lines generalizing before stretch with
  | case1 => rw [spansFrom, toPiece_proseSpan whole]
  | case2 line rest inside last after found ih =>
      obtain ⟨rfl, encloses⟩ := block?_eq_some_iff.mp found
      have split : line :: (inside ++ last :: after) = (line :: inside) ++ last :: after := rfl
      obtain ⟨_, fromLast⟩ := Text.AreLines.of_append (split ▸ areLines)
      have filled := (isBlock_of_encloses areLines encloses).isFenced.ne_nil
      obtain ⟨_, _, _, ends⟩ := encloses
      have parts := Text.lineBody_append_lineReturn last
      generalize blockEq : line ++ inside.flatten ++ Text.lineBody last = block at filled ⊢
      have longer : (before ++ stretch ++ block).length = (before ++ stretch).length + block.length :=
        List.length_append
      have whole' : text = (before ++ stretch ++ block) ++ (Text.lineReturn last ++ after.flatten) := by
        rw [whole, ← blockEq]
        simp only [List.flatten_cons, List.flatten_append, List.append_assoc]
        rw [← List.append_assoc (Text.lineBody last), parts]
      have own : (Span.mk (before ++ stretch).length (before ++ stretch ++ block).length).slice text =
          block := by
        rw [longer, whole', List.append_assoc (before ++ stretch), Span.slice_append]
      have apart : Text.lineReturn last ≠ [] ∨ Piece.fuse (cut after) = [] := by
        cases after with
        | nil => exact .inr (by rw [cut]; rfl)
        | cons next after => exact .inl (lineReturn_of_closes fromLast ends).1
      have stop : (before ++ stretch).length + line.length + inside.flatten.length +
          (Text.lineBody last).length = (before ++ stretch ++ block).length := by
        rw [longer, ← blockEq]
        simp only [List.length_append]
        omega
      rw [spansFrom_of_some found, stop, ← List.length_append, List.map_append,
        toPiece_proseSpan whole, List.map_cons, ih fromLast.tail whole']
      simp only [Located.ofSpan, own]
      rw [fuse_append_code, ← fuse_code filled apart, ← Piece.fuse_cons]
  | case3 line rest found ih =>
      have later := @ih before (stretch ++ line) areLines.tail (by simp [whole])
      rw [spansFrom_of_none found, ← List.length_append, List.append_assoc, later, Piece.fuse_cons,
        Piece.fuse_cons, Piece.fuse_cons, Piece.attach_attach]

theorem split_eq_fuse (text : List Char) : split text = Piece.fuse (cut (Text.lines text)) := by
  have segments := @toPiece_spansFrom text [] [] _ (Text.areLines_lines text) (by simp)
  rw [Piece.fuse_cons, Piece.attach_of_empty] at segments
  simpa [split, locate, Function.comp_def] using segments

theorem isFused_split (text : List Char) : Piece.IsFused (split text) :=
  split_eq_fuse text ▸ Piece.isFused_fuse _

theorem join_split (text : List Char) : Piece.join (split text) = text := by
  rw [split_eq_fuse, Piece.join_fuse, join_cut, Text.flatten_lines]

theorem split_of_free {text : List Char} (filled : text ≠ []) (free : '\x60' ∉ text) :
    split text = [⟨.prose, text⟩] := by
  refine (isFused_split text).eq_of_paint_eq (Piece.isFused_single filled) ?_
  rw [split_eq_fuse, Piece.paint_fuse]
  have clear : ∀ line ∈ Text.lines text, '\x60' ∉ line := by
    intro line member tick
    rw [← Text.flatten_lines text] at free
    exact free (List.mem_flatten.mpr ⟨line, member, tick⟩)
  conv_rhs => rw [← Text.flatten_lines text]
  generalize Text.lines text = lines at clear
  fun_induction cut lines with
  | case1 => rfl
  | case2 line rest inside last after found _ =>
      obtain ⟨_, width, opened, _⟩ := block?_eq_some_iff.mp found
      simp [opens?_eq_none (clear line (by simp))] at opened
  | case3 line rest _ ih =>
      have later := ih fun other member => clear other (by simp [member])
      rw [Piece.paint_cons, later]
      simp

theorem exists_parts {lines : List (List Char)} (areLines : Text.AreLines lines)
    {before : Option Char} (atLine : AtLine before) :
    ∃ front parts, Piece.paint (cut lines) = Piece.paint (assemble front parts) ∧
      Framed (Text.lastOr before front) parts := by
  fun_induction cut lines generalizing before with
  | case1 => exact ⟨[], [], rfl, trivial⟩
  | case2 line rest inside last after found ih =>
      obtain ⟨rfl, encloses⟩ := block?_eq_some_iff.mp found
      have isBlock := isBlock_of_encloses areLines encloses
      obtain ⟨width, _, _, ends⟩ := encloses
      have split : line :: (inside ++ last :: after) = (line :: inside) ++ last :: after := rfl
      obtain ⟨_, fromLast⟩ := Text.AreLines.of_append (split ▸ areLines)
      have afterLines : Text.AreLines after := fromLast.tail
      have returns (char : Char) (head : (Text.lineReturn last).head? = some char) :
          Text.isReturn char = true :=
        Text.isReturn_of_mem_lineReturn (List.mem_of_mem_head? head)
      cases after with
      | nil =>
          refine ⟨[], [(line ++ inside.flatten ++ Text.lineBody last, Text.lineReturn last)],
            by simp [cut, assemble], ?_⟩
          exact ⟨atLine, isBlock, returns, trivial⟩
      | cons next after =>
          obtain ⟨endingFilled, nextAtLine⟩ := lineReturn_of_closes fromLast ends
          obtain ⟨front, others, painted, framed⟩ := ih afterLines (nextAtLine _)
          refine ⟨[], (line ++ inside.flatten ++ Text.lineBody last,
            Text.lineReturn last ++ front) :: others, ?_, atLine, isBlock, ?_, ?_⟩
          · simp only [assemble, segmentsOf_cons, Piece.paint_cons] at painted ⊢
            rw [painted]
            simp
          · intro other head
            obtain ⟨first, rest, endingEq⟩ := List.exists_cons_of_ne_nil endingFilled
            rw [endingEq] at head
            exact returns other (by rw [endingEq]; simpa using head)
          · simpa using framed
  | case3 line rest found ih =>
      cases rest with
      | nil => exact ⟨line, [], by simp [cut, assemble], trivial⟩
      | cons next rest =>
          have broken := (List.isChain_cons_cons.mp areLines.broken).1
          obtain ⟨last, lastEq, isBreak⟩ := broken.ended
          have lineFilled := broken.ne_nil
          have nextAtLine : AtLine (Text.lastOr before line) := by
            intro char same
            rw [Text.lastOr_of_ne_nil lineFilled, lastEq, Option.some.injEq] at same
            exact same ▸ isBreak
          obtain ⟨front, parts, painted, framed⟩ := ih areLines.tail nextAtLine
          refine ⟨line ++ front, parts, ?_, by simpa using framed⟩
          simp only [assemble, Piece.paint_cons] at painted ⊢
          rw [painted]
          simp

theorem IsBlock.ne_nil {block : List Char} (isBlock : IsBlock block) : block ≠ [] :=
  isBlock.isFenced.ne_nil

theorem Framed.isBlock {part : List Char × List Char} {before : Option Char} {parts : Parts}
    (framed : Framed before parts) (member : part ∈ parts) : IsBlock part.1 := by
  induction parts generalizing before with
  | nil => exact absurd member List.not_mem_nil
  | cons other parts ih =>
      rcases List.mem_cons.mp member with rfl | later
      · exact framed.2.1
      · exact ih framed.2.2.2 later

theorem mem_segmentsOf {segment : Segment} {parts : Parts} : segment ∈ segmentsOf parts ↔
    ∃ part ∈ parts, segment = ⟨.code, part.1⟩ ∨ segment = ⟨.prose, part.2⟩ := by
  simp [segmentsOf]

theorem Framed.filled {block prose next later : List Char} {before : Option Char} {parts : Parts}
    (framed : Framed before ((block, prose) :: (next, later) :: parts)) : prose ≠ [] := by
  rintro rfl
  obtain ⟨char, lastEq, fence⟩ := framed.2.1.getLast
  have atLine := framed.2.2.2.1 char lastEq
  rw [not_isLineBreak_of_isFenceChar fence] at atLine
  exact absurd atLine (by decide)

theorem isFused_segmentsOf {before : Option Char} {parts : Parts} (framed : Framed before parts) :
    Piece.IsFused ((segmentsOf parts).filter (!·.text.isEmpty)) := by
  induction parts generalizing before with
  | nil => exact ⟨by simp, by simp⟩
  | cons part parts ih =>
      obtain ⟨block, prose⟩ := part
      have own := framed.2.1.ne_nil
      have rest := ih framed.2.2.2
      refine ⟨fun piece member => by simpa using (List.mem_filter.mp member).2, ?_⟩
      cases parts with
      | nil =>
          cases prose with
          | nil => simp [own]
          | cons char prose => simp [own]
      | cons next parts =>
          obtain ⟨nextBlock, nextProse⟩ := next
          have filled := framed.filled
          have nextOwn := framed.2.2.2.2.1.ne_nil
          have chain := rest.differ
          simp only [segmentsOf_cons, List.filter_cons, List.isEmpty_eq_false_iff.mpr own,
            List.isEmpty_eq_false_iff.mpr filled, List.isEmpty_eq_false_iff.mpr nextOwn,
            Bool.not_false, if_true] at chain ⊢
          exact .cons_cons (by simp) (.cons_cons (by simp) chain)

theorem paint_filter (segments : List Segment) :
    Piece.paint (segments.filter (!·.text.isEmpty)) = Piece.paint segments := by
  induction segments with
  | nil => rfl
  | cons segment segments ih =>
      rw [List.filter_cons]
      split
      next => rw [Piece.paint_cons, Piece.paint_cons, ih]
      next empty =>
        have isNil : segment.text = [] := by simpa using empty
        rw [Piece.paint_cons, ih, isNil]
        rfl

theorem fuse_assemble {before : Option Char} {front : List Char} {parts : Parts}
    (framed : Framed before parts) :
    Piece.fuse (assemble front parts) = (assemble front parts).filter (!·.text.isEmpty) := by
  have fused : Piece.IsFused ((assemble front parts).filter (!·.text.isEmpty)) := by
    have rest := isFused_segmentsOf framed
    refine ⟨fun piece member => by simpa using (List.mem_filter.mp member).2, ?_⟩
    cases front with
    | nil => simpa [assemble] using rest.differ
    | cons char front =>
        cases parts with
        | nil => simp [assemble]
        | cons part parts =>
            obtain ⟨block, prose⟩ := part
            have own := framed.2.1.ne_nil
            have chain := rest.differ
            simp only [assemble, segmentsOf_cons, List.filter_cons,
              List.isEmpty_eq_false_iff.mpr own, List.isEmpty_cons, Bool.not_false, if_true]
              at chain ⊢
            exact .cons_cons (by simp) chain
  refine (Piece.isFused_fuse _).eq_of_paint_eq fused ?_
  rw [Piece.paint_fuse, paint_filter]

theorem exists_assemble (text : List Char) :
    ∃ front parts, split text = Piece.fuse (assemble front parts) ∧
      Framed (Text.lastOr none front) parts := by
  have start : AtLine none := fun _ present => by simp at present
  obtain ⟨front, parts, painted, framed⟩ := exists_parts (Text.areLines_lines text) start
  refine ⟨front, parts, ?_, framed⟩
  rw [split_eq_fuse]
  refine (Piece.isFused_fuse _).eq_of_paint_eq (Piece.isFused_fuse _) ?_
  rw [Piece.paint_fuse, Piece.paint_fuse, painted]

/-- No line that starts in prose opens a fence that a line below closes. -/
def StaysShut (segments : List Segment) : Prop :=
  ∀ above line below, Text.lines (Piece.join segments) = above ++ line :: below →
    (Piece.paint segments)[above.flatten.length]?.map Prod.snd = some .prose →
    Text.block? closer? line below = none

theorem kindAt_of_lt {kind : SegmentKind} {text : List Char} {rest : List (Char × SegmentKind)}
    {place : Nat} (inside : place < text.length) :
    (text.map (·, kind) ++ rest)[place]?.map Prod.snd = some kind := by
  rw [List.getElem?_append_left (by simpa using inside), List.getElem?_map,
    List.getElem?_eq_getElem inside]
  rfl

theorem kindAt_of_le {kind : SegmentKind} {text : List Char} {rest : List (Char × SegmentKind)}
    (place : Nat) :
    (text.map (·, kind) ++ rest)[text.length + place]? = rest[place]? := by
  rw [List.getElem?_append_right (by simp)]
  simp

theorem length_flatten_le {opening above others : List (List Char)} {last line : List Char}
    (own : opening ++ [last] = above ++ line :: others) :
    above.flatten.length ≤ opening.flatten.length := by
  rcases List.eq_nil_or_concat' others with rfl | ⟨others, final, rfl⟩
  · obtain ⟨rfl, _⟩ := List.append_inj' own rfl
    exact Nat.le_refl _
  · have cut : opening ++ [last] = (above ++ line :: others) ++ [final] := by
      simpa using own
    rw [(List.append_inj' cut rfl).1, List.flatten_append, List.length_append]
    omega

theorem block?_eq_none_of_paint {lines above below : List (List Char)} {line : List Char}
    (filled : ∀ line ∈ lines, line ≠ []) (split : lines = above ++ line :: below)
    (isProse : (Piece.paint (cut lines))[above.flatten.length]?.map Prod.snd = some .prose) :
    Text.block? closer? line below = none := by
  fun_induction cut lines generalizing above with
  | case1 => simp at split
  | case2 first rest inside last after found ih =>
      obtain ⟨restEq, _, _, _, ends⟩ := block?_eq_some_iff.mp found
      have bodyFilled := List.length_pos_iff.mpr (closes_body ends).1
      have parts := congrArg List.length (Text.lineBody_append_lineReturn last)
      rw [List.length_append] at parts
      have whole : (first :: inside ++ [last]) ++ after = above ++ line :: below := by
        rw [← split, restEq]
        simp
      rcases append_eq_append_cons whole with ⟨others, own, _⟩ | ⟨others, aboveEq, afterEq⟩
      · -- The line would start in the block.
        have bound := length_flatten_le own
        have inside : above.flatten.length <
            (first ++ inside.flatten ++ Text.lineBody last).length := by
          rw [List.length_append, ← List.flatten_cons]
          omega
        rw [Piece.paint_cons, kindAt_of_lt inside] at isProse
        simp at isProse
      · refine ih (fun next member => filled next ?_) afterEq ?_
        · rw [restEq]
          simp [member]
        · have place : above.flatten.length =
              (first ++ inside.flatten ++ Text.lineBody last).length +
                ((Text.lineReturn last).length + others.flatten.length) := by
            rw [aboveEq]
            simp only [List.flatten_append, List.flatten_cons, List.flatten_nil, List.length_append,
              List.append_nil]
            omega
          rw [Piece.paint_cons, Piece.paint_cons, place, kindAt_of_le, kindAt_of_le] at isProse
          exact isProse
  | case3 first rest found ih =>
      cases above with
      | nil =>
          simp only [List.nil_append, List.cons.injEq] at split
          rw [← split.1, ← split.2]
          exact found
      | cons other above =>
          simp only [List.cons_append, List.cons.injEq] at split
          obtain ⟨rfl, rfl⟩ := split
          refine ih (fun next member => filled next (List.mem_cons_of_mem _ member)) rfl ?_
          rw [Piece.paint_cons, List.flatten_cons, List.length_append, kindAt_of_le] at isProse
          exact isProse

theorem paint_cut_append {lines rest : List (List Char)}
    (shut : ∀ above line below, lines = above ++ line :: below →
      Text.block? closer? line (below ++ rest) = none) :
    Piece.paint (cut (lines ++ rest)) =
      lines.flatten.map (·, .prose) ++ Piece.paint (cut rest) := by
  induction lines with
  | nil => rfl
  | cons line lines ih =>
      have own := shut [] line lines rfl
      have others := ih fun above other below whole =>
        shut (line :: above) other below (by rw [whole]; rfl)
      rw [List.cons_append, cut]
      split
      next found => rw [own] at found; simp at found
      next => rw [Piece.paint_cons, others]; simp

structure Ends (ending rest : List Char) : Prop where
  returns : ∀ char ∈ ending, Text.isReturn char = true
  broken : (ending = [] ∧ rest = []) ∨ (Text.lines ending = [ending] ∧ Text.Breaks ending rest)

/-- The lines of a block with what stands after it, the block ending in its last line. -/
theorem IsBlock.lines_append {block ending rest : List Char} (isBlock : IsBlock block)
    (ends : Ends ending rest) :
    ∃ first inside last, Text.lines (block ++ (ending ++ rest)) =
        first :: (inside ++ last :: Text.lines rest) ∧
      Encloses first inside last ∧ Text.lineReturn last = ending ∧
      block = first ++ inside.flatten ++ Text.lineBody last := by
  obtain ⟨width, first, inside, last, rfl, areLines, opened, unclosed, closed, bare⟩ := isBlock
  obtain ⟨filled, fence⟩ := closes_body closed
  rw [bare] at filled fence
  have unbroken : ∀ char ∈ last, Text.isLineBreak char = false :=
    fun char member => not_isLineBreak_of_isFenceChar (fence char member)
  have finalBody : Text.lineBody (last ++ ending) = last := by
    rw [Text.lineBody_append ends.returns, bare]
  have single : Text.lines (last ++ ending) = [last ++ ending] := by
    rcases ends.broken with ⟨rfl, _⟩ | ⟨endingSingle, _⟩
    · rw [List.append_nil]
      exact Text.lines_of_unbroken filled unbroken
    · exact Text.lines_unbroken_append unbroken endingSingle
  have head : (last ++ ending).head? = last.head? := by
    obtain ⟨char, others, rfl⟩ := List.exists_cons_of_ne_nil filled
    rfl
  have upperLines : Text.AreLines (first :: inside ++ [last ++ ending]) :=
    areLines.cut_last single head
  have allLines : Text.AreLines ((first :: inside ++ [last ++ ending]) ++ Text.lines rest) := by
    refine upperLines.append (Text.areLines_lines rest) fun final isLast next isNext => ?_
    rw [List.getLast?_concat, Option.some.injEq] at isLast
    subst isLast
    rcases ends.broken with ⟨_, rfl⟩ | ⟨_, broken⟩
    · simp [Text.lines] at isNext
    · exact Text.Breaks.append_left ⟨broken.ended, Text.head?_of_lines isNext ▸ broken.uncut⟩
  have whole : ((first :: inside ++ [last ++ ending]) ++ Text.lines rest).flatten =
      first ++ inside.flatten ++ last ++ (ending ++ rest) := by
    simp
  have linesEq := Text.lines_flatten allLines
  rw [whole] at linesEq
  refine ⟨first, inside, last ++ ending, by simpa using linesEq, ⟨width, opened, unclosed, ?_⟩,
    ?_, by rw [finalBody]⟩
  · exact (closes_congr width (finalBody.trans bare.symm)).trans closed
  · rw [Text.lineReturn, finalBody, List.drop_left]

theorem paint_cut_block {block ending rest : List Char} (isBlock : IsBlock block)
    (ends : Ends ending rest) :
    ∃ upper, Text.lines (block ++ (ending ++ rest)) = upper ++ Text.lines rest ∧
      upper.flatten = block ++ ending ∧
      Piece.paint (cut (Text.lines (block ++ (ending ++ rest)))) =
        block.map (·, .code) ++
          (ending.map (·, .prose) ++ Piece.paint (cut (Text.lines rest))) := by
  obtain ⟨first, inside, last, linesEq, encloses, endingEq, blockEq⟩ := isBlock.lines_append ends
  have parts := Text.lineBody_append_lineReturn last
  rw [endingEq] at parts
  refine ⟨first :: inside ++ [last], by simpa using linesEq, ?_, ?_⟩
  · rw [blockEq, List.append_assoc, parts]
    simp
  rw [linesEq, cut]
  split
  next inside' last' after' found =>
    rw [block?_eq_some_iff.mpr ⟨rfl, encloses⟩] at found
    simp only [Option.some.injEq, Prod.mk.injEq] at found
    obtain ⟨rfl, rfl, rfl⟩ := found
    rw [Piece.paint_cons, Piece.paint_cons, endingEq, blockEq]
  next unblocked =>
    rw [block?_eq_some_iff.mpr ⟨rfl, encloses⟩] at unblocked
    simp at unblocked

theorem paint_cut_front (front rest : List Char) (segments : List Segment)
    (broken : rest = [] ∨ front = [] ∨ Text.Breaks front rest)
    (shut : ∀ above line below, Text.lines (front ++ rest) = above ++ line :: below →
      (front.map (·, SegmentKind.prose) ++
        Piece.paint segments)[above.flatten.length]?.map Prod.snd = some .prose →
      Text.block? closer? line below = none) :
    Text.lines (front ++ rest) = Text.lines front ++ Text.lines rest ∧
      Piece.paint (cut (Text.lines (front ++ rest))) =
        front.map (·, .prose) ++ Piece.paint (cut (Text.lines rest)) := by
  have linesEq : Text.lines (front ++ rest) = Text.lines front ++ Text.lines rest := by
    rcases broken with rfl | rfl | broken
    · simp [Text.lines]
    · simp [Text.lines]
    · exact Text.lines_append broken
  refine ⟨linesEq, ?_⟩
  rw [linesEq, paint_cut_append, Text.flatten_lines]
  intro above line below split
  refine shut above line (below ++ Text.lines rest) ?_ (kindAt_of_lt ?_)
  · rw [linesEq, split]
    simp
  · have filled : line ≠ [] := (Text.areLines_lines front).ne_nil (by simp [split])
    have whole := congrArg List.length (Text.flatten_lines front)
    rw [split, List.flatten_append, List.flatten_cons] at whole
    have positive := List.length_pos_iff.mpr filled
    simp only [List.length_append] at whole
    omega

theorem Framed.broken {before : Option Char} {front block prose rest : List Char} {parts : Parts}
    (framed : Framed (Text.lastOr before front) ((block, prose) :: parts)) :
    front = [] ∨ Text.Breaks front (block ++ rest) := by
  by_cases empty : front = []
  · exact .inl empty
  · right
    obtain ⟨char, head, fence⟩ := framed.2.1.head
    obtain ⟨others, rfl⟩ := List.head?_eq_some_iff.mp head
    obtain ⟨init, last, rfl⟩ := (List.eq_nil_or_concat' front).resolve_left empty
    refine ⟨⟨last, List.getLast?_concat, framed.1 last (by simp)⟩, ?_⟩
    intro _ feed
    simp only [List.cons_append, List.head?_cons, Option.some.injEq] at feed
    rw [feed] at fence
    exact absurd fence (by decide)

theorem Framed.head {before : Option Char} {parts : Parts} (framed : Framed before parts) :
    (Piece.join (segmentsOf parts)).head? ≠ some '\n' := by
  cases parts with
  | nil => simp
  | cons part parts =>
      obtain ⟨block, prose⟩ := part
      obtain ⟨char, head, fence⟩ := framed.2.1.head
      obtain ⟨others, rfl⟩ := List.head?_eq_some_iff.mp head
      intro feed
      simp only [segmentsOf_cons, Piece.join_cons, List.cons_append, List.head?_cons,
        Option.some.injEq] at feed
      rw [feed] at fence
      exact absurd fence (by decide)

theorem Framed.ends {before : Option Char} {block prose : List Char} {parts : Parts}
    (framed : Framed before ((block, prose) :: parts)) :
    ∃ ending rest, prose = ending ++ rest ∧
      Ends ending (rest ++ Piece.join (segmentsOf parts)) ∧
      Framed (Text.lastOr (Text.lastOr block.getLast? ending) rest) parts := by
  cases prose with
  | nil =>
      cases parts with
      | nil => exact ⟨[], [], rfl, ⟨by simp, .inl ⟨rfl, rfl⟩⟩, trivial⟩
      | cons next parts => exact absurd rfl framed.filled
  | cons first others =>
      have later := framed.2.2.2
      obtain ⟨ending, rest, whole, returns, single, last, lastEq, isBreak, uncut⟩ :=
        Text.exists_ending (List.head?_cons) (framed.2.2.1 first rfl)
      rw [whole, Text.lastOr_append] at later
      refine ⟨ending, rest, whole, ⟨returns, .inr ⟨single, ⟨last, lastEq, isBreak⟩, ?_⟩⟩, later⟩
      intro isReturn feed
      rw [lastEq, Option.some.injEq] at isReturn
      cases rest with
      | nil => exact later.head feed
      | cons next rest => exact uncut isReturn feed

theorem paint_cut_assemble {before : Option Char} {front : List Char} {parts : Parts}
    (framed : Framed (Text.lastOr before front) parts) (shut : StaysShut (assemble front parts)) :
    Piece.paint (cut (Text.lines (Piece.join (assemble front parts)))) =
      Piece.paint (assemble front parts) := by
  induction parts generalizing before front with
  | nil =>
      have read := (paint_cut_front front [] [] (.inl rfl)
        (by simpa [StaysShut, assemble] using shut)).2
      simpa [assemble, Text.lines, cut] using read
  | cons part parts ih =>
      obtain ⟨block, prose⟩ := part
      obtain ⟨ending, rest, rfl, ends, later⟩ := framed.ends
      obtain ⟨upper, linesEq, upperEq, blockEq⟩ := paint_cut_block framed.2.1 ends
      have whole : Piece.join (assemble front ((block, ending ++ rest) :: parts)) =
          front ++ (block ++ (ending ++ (rest ++ Piece.join (segmentsOf parts)))) := by
        simp [assemble]
      have painted : Piece.paint (assemble front ((block, ending ++ rest) :: parts)) =
          front.map (·, .prose) ++ (block.map (·, .code) ++ (ending.map (·, .prose) ++
            Piece.paint (assemble rest parts))) := by
        simp [assemble]
      have joined : Piece.join (assemble rest parts) = rest ++ Piece.join (segmentsOf parts) := rfl
      unfold StaysShut at shut
      rw [whole, painted] at shut
      obtain ⟨frontLines, frontEq⟩ := paint_cut_front front _
        (segmentsOf ((block, ending ++ rest) :: parts)) (.inr framed.broken)
        (by simpa [assemble] using shut)
      have below : StaysShut (assemble rest parts) := by
        intro above line below split place
        rw [joined] at split
        refine shut (Text.lines front ++ upper ++ above) line below ?_ ?_
        · rw [frontLines, linesEq, split]
          simp
        · have start : (Text.lines front ++ upper ++ above).flatten.length =
              front.length + (block.length + (ending.length + above.flatten.length)) := by
            rw [List.flatten_append, List.flatten_append, Text.flatten_lines, upperEq]
            simp only [List.length_append]
            omega
          rw [start, kindAt_of_le, kindAt_of_le, kindAt_of_le]
          exact place
      rw [whole, painted, frontEq, blockEq, ← joined, ih later below]

/-- Such a text is read back as it stands just if no prose line opens a fence. -/
theorem split_join_assemble {front : List Char} {parts : Parts}
    (framed : Framed (Text.lastOr none front) parts) :
    split (Piece.join (assemble front parts)) = Piece.fuse (assemble front parts) ↔
      StaysShut (assemble front parts) := by
  constructor
  · intro same above line below linesEq isProse
    refine block?_eq_none_of_paint (fun _ => (Text.areLines_lines _).ne_nil) linesEq ?_
    have painted := congrArg Piece.paint same
    rw [split_eq_fuse, Piece.paint_fuse, Piece.paint_fuse] at painted
    rwa [painted]
  · intro shut
    rw [split_eq_fuse]
    refine (Piece.isFused_fuse _).eq_of_paint_eq (Piece.isFused_fuse _) ?_
    rw [Piece.paint_fuse, Piece.paint_fuse, paint_cut_assemble framed shut]

end Fence

end DollarMath
