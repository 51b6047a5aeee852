import DollarMath.Proofs.Region.Straddle

/-!
The lines of a document by their numbers. A line found by counting line feeds in the painted text is
the line with that number among the physical lines of fragments, and whether it holds a stray dollar
can be read off its paint once neighbours of one kind are fused.
-/

namespace DollarMath

namespace Text

def lineAt (text : List Char) (number : Nat) : List Char :=
  (splitFeeds text).getD number []

theorem splitAt_ne_nil (mark : Char) (text : List Char) : splitAt mark text ≠ [] := by
  cases text with
  | nil => simp [splitAt]
  | cons char rest =>
      rw [splitAt]
      split
      · simp
      · cases splitAt mark rest <;> simp [consLine]

@[simp] theorem lineAt_nil (number : Nat) : lineAt [] number = [] := by
  cases number <;> rfl

theorem lineAt_feed_zero (rest : List Char) : lineAt ('\n' :: rest) 0 = [] := by
  simp [lineAt, splitFeeds, splitAt]

theorem lineAt_feed_succ (rest : List Char) (number : Nat) :
    lineAt ('\n' :: rest) (number + 1) = lineAt rest number := by
  simp [lineAt, splitFeeds, splitAt]

theorem lineAt_cons_zero {char : Char} (plain : char ≠ '\n') (rest : List Char) :
    lineAt (char :: rest) 0 = char :: lineAt rest 0 := by
  obtain ⟨line, lines, whole⟩ := List.exists_cons_of_ne_nil (splitAt_ne_nil '\n' rest)
  simp [lineAt, splitFeeds, splitAt, plain, whole, consLine]

theorem lineAt_cons_succ {char : Char} (plain : char ≠ '\n') (rest : List Char) (number : Nat) :
    lineAt (char :: rest) (number + 1) = lineAt rest (number + 1) := by
  obtain ⟨line, lines, whole⟩ := List.exists_cons_of_ne_nil (splitAt_ne_nil '\n' rest)
  simp [lineAt, splitFeeds, splitAt, plain, whole, consLine]

theorem length_splitFeeds (text : List Char) :
    (splitFeeds text).length = text.count '\n' + 1 := by
  unfold splitFeeds
  induction text with
  | nil => rfl
  | cons char rest ih =>
      rw [splitAt]
      split
      next feed => simp [feed, ih]
      next plain =>
        obtain ⟨line, lines, whole⟩ := List.exists_cons_of_ne_nil (splitAt_ne_nil '\n' rest)
        rw [whole] at ih ⊢
        simpa [consLine, List.count_cons, plain] using ih

def IsRow (text : List Char) : Prop :=
  (∃ body, text = body ++ ['\n'] ∧ '\n' ∉ body) ∨ '\n' ∉ text

theorem isRow_of_mem_physicalLines {text line : List Char} (member : line ∈ physicalLines text) :
    IsRow line := by
  obtain ⟨front, back, split⟩ := List.append_of_mem member
  rcases physicalLines_shape split with ended | ⟨free, _⟩
  · exact .inl ended
  · exact .inr free

theorem IsRow.count_feed {text : List Char} (row : IsRow text) :
    text.count '\n' = if text.getLast? = some '\n' then 1 else 0 := by
  rcases row with ⟨body, rfl, free⟩ | free
  · simp [List.count_eq_zero_of_not_mem free]
  · rw [List.count_eq_zero_of_not_mem free, if_neg]
    intro last
    exact free (List.mem_of_getLast? last)

theorem IsRow.not_mem_front {front back : List Char} {char : Char}
    (row : IsRow (front ++ char :: back)) : '\n' ∉ front := by
  rcases row with ⟨body, whole, free⟩ | free
  · obtain ⟨init, last, backEq⟩ := (List.eq_nil_or_concat' (char :: back)).resolve_left (by simp)
    rw [backEq, ← List.append_assoc] at whole
    have same := (List.append_inj_left' whole rfl)
    intro member
    exact free (by simp [← same, member])
  · intro member
    exact free (by simp [member])

theorem exists_char_on_line {text : List Char} (filled : text ≠ [])
    (ends : text.getLast? ≠ some '\n') (number : Nat) (bound : number ≤ text.count '\n') :
    ∃ front char back, text = front ++ char :: back ∧ front.count '\n' = number := by
  induction text generalizing number with
  | nil => exact absurd rfl filled
  | cons char text ih =>
      by_cases here : number = 0
      · exact ⟨[], char, text, rfl, here.symm⟩
      · have more : text ≠ [] := by
          rintro rfl
          have plain : char ≠ '\n' := by simpa using ends
          simp [plain] at bound
          omega
        have endsLater : text.getLast? ≠ some '\n' := by
          rwa [← List.singleton_append, List.getLast?_append_of_ne_nil _ more] at ends
        rw [List.count_cons] at bound
        by_cases feed : char = '\n'
        · obtain ⟨front, next, back, rfl, count⟩ :=
            ih more endsLater (number - 1) (by simp [feed] at bound; omega)
          exact ⟨char :: front, next, back, rfl, by simp [feed, count]; omega⟩
        · obtain ⟨front, next, back, rfl, count⟩ := ih more endsLater number (by simpa [feed] using bound)
          exact ⟨char :: front, next, back, rfl, by simp [feed, count]⟩

end Text

namespace Painted

/-- The part of a text that lies on the line with the given number, line feed included, if the text
starts on the line given next. -/
def onLine (number : Nat) : (line : Nat) → Painted → Painted
  | _, [] => []
  | line, stroke :: rest =>
    (if line = number then [stroke] else []) ++
      onLine number (if stroke.1 = '\n' then line + 1 else line) rest

@[simp] theorem onLine_append (number line : Nat) (first second : Painted) :
    onLine number line (first ++ second) =
      onLine number line first ++ onLine number (line + first.text.count '\n') second := by
  induction first generalizing line with
  | nil => simp [onLine]
  | cons stroke first ih =>
      rw [List.cons_append, onLine, onLine, ih, List.append_assoc]
      congr 3
      by_cases feed : stroke.1 = '\n'
      · simp [text, feed]
        omega
      · simp [text, feed]

theorem onLine_eq_nil {number line : Nat} {painted : Painted}
    (apart : number < line ∨ line + painted.text.count '\n' < number) :
    onLine number line painted = [] := by
  induction painted generalizing line with
  | nil => rfl
  | cons stroke painted ih =>
      have size : (Painted.text (stroke :: painted)).count '\n' =
          (Painted.text painted).count '\n' + if stroke.1 = '\n' then 1 else 0 := by
        simp [text, List.count_cons]
      rw [size] at apart
      have own : line ≠ number := by omega
      rw [onLine, if_neg own, List.nil_append]
      apply ih
      split
      next feed =>
        rw [if_pos feed] at apart
        omega
      next plain =>
        rw [if_neg plain] at apart
        omega

theorem onLine_row {number line : Nat} {painted : Painted} (row : Text.IsRow painted.text) :
    onLine number line painted = if line = number then painted else [] := by
  have plain : ∀ body : Painted, '\n' ∉ body.text →
      onLine number line body = if line = number then body else [] := by
    intro body free
    induction body with
    | nil => simp [onLine]
    | cons stroke body ih =>
        have own : stroke.1 ≠ '\n' := by
          intro feed
          simp [text, feed] at free
        have later : '\n' ∉ Painted.text body := fun member => free (by
          rw [text, List.map_cons]
          exact List.mem_cons_of_mem _ member)
        rw [onLine, if_neg own, ih later]
        split <;> simp
  rcases row with ⟨body, textEq, free⟩ | free
  · obtain ⟨front, last, rfl⟩ := (List.eq_nil_or_concat' painted).resolve_left (by
      rintro rfl
      simp at textEq)
    have parts : Painted.text front = body := by
      rw [text_append] at textEq
      exact List.append_inj_left' textEq rfl
    rw [onLine_append, plain front (parts ▸ free), List.count_eq_zero_of_not_mem (parts ▸ free)]
    simp only [onLine]
    split
    next own => simp [own]
    next other => simp [other]
  · exact plain painted free

theorem lineAt_text (painted : Painted) (line number : Nat) :
    Text.lineAt painted.text number =
      (onLine (line + number) line painted).text.filter (· ≠ '\n') := by
  induction painted generalizing line number with
  | nil => simp [onLine]
  | cons stroke painted ih =>
      obtain ⟨char, kind⟩ := stroke
      rw [text_cons, onLine]
      by_cases feed : char = '\n'
      · subst feed
        cases number with
        | zero =>
            have noneOn : onLine line (line + 1) painted = [] := onLine_eq_nil (.inl (by omega))
            simp [Text.lineAt_feed_zero, noneOn]
        | succ number =>
            have shift : line + (number + 1) = line + 1 + number := by omega
            rw [Text.lineAt_feed_succ, ih (line + 1), if_neg (by omega), if_pos rfl, shift,
              List.nil_append]
      · cases number with
        | zero => simp [Text.lineAt_cons_zero feed, ih line 0, feed]
        | succ number =>
            rw [Text.lineAt_cons_succ feed, ih line]
            simp [feed]

theorem onLine_ended {painted : Painted} (ended : painted.text.getLast? = some '\n') (line : Nat) :
    onLine (line + painted.text.count '\n') line painted = [] := by
  obtain rfl | ⟨init, last, rfl⟩ := List.eq_nil_or_concat' painted
  · rfl
  · obtain ⟨char, kind⟩ := last
    obtain rfl : char = '\n' := by simpa [text] using ended
    have count : (text (init ++ [('\n', kind)])).count '\n' = (text init).count '\n' + 1 := by simp
    rw [count, onLine_append, onLine_eq_nil (.inr (by omega)), onLine, if_neg (by omega)]
    rfl

/-- The characters on a line are those of the row with its number. -/
theorem onLine_between {above row below : Painted} (isRow : Text.IsRow row.text)
    (start : above = [] ∨ above.text.getLast? = some '\n')
    (stop : below = [] ∨ row.text.getLast? = some '\n') (line : Nat) :
    onLine (line + above.text.count '\n') line (above ++ (row ++ below)) = row := by
  have before : onLine (line + above.text.count '\n') line above = [] := by
    rcases start with rfl | ended
    · rfl
    · exact onLine_ended ended line
  rw [onLine_append, before, List.nil_append, onLine_append, onLine_row isRow, if_pos rfl]
  have after : onLine (line + above.text.count '\n')
      (line + above.text.count '\n' + row.text.count '\n') below = [] := by
    rcases stop with rfl | ended
    · rfl
    · rw [isRow.count_feed, if_pos ended]
      exact onLine_eq_nil (.inl (by omega))
  rw [after, List.append_nil]

theorem forall₂_onLine {relates : Char × RegionKind → Char × RegionKind → Prop}
    (keeps : ∀ old new, relates old new → new.1 = old.1) {old new : Painted}
    (related : List.Forall₂ relates old new) (number line : Nat) :
    List.Forall₂ relates (onLine number line old) (onLine number line new) := by
  induction related generalizing line with
  | nil => exact .nil
  | @cons first second old new own _ ih =>
      rw [onLine, onLine, keeps first second own]
      refine List.rel_append ?_ (ih _)
      split
      · exact .cons own .nil
      · exact .nil

end Painted

namespace Fragment

def paint (fragment : Fragment) : Painted :=
  fragment.text.map (·, fragment.kind)

@[simp] theorem text_paint (fragment : Fragment) : fragment.paint.text = fragment.text :=
  Painted.text_map _ _

theorem flatMap_paint_ofLines (index offset : Nat) (kind : RegionKind) (lines : List (List Char)) :
    (ofLines index kind offset lines).flatMap paint = lines.flatten.map (·, kind) := by
  induction lines generalizing offset with
  | nil => rfl
  | cons line lines ih => simp [ofLines, ih, paint]

theorem flatMap_paint_ofRegions (index : Nat) (regions : List Region) :
    (ofRegions index regions).flatMap paint = Piece.paint regions := by
  induction regions generalizing index with
  | nil => rfl
  | cons region regions ih =>
      rw [ofRegions, List.flatMap_append, ih, ofRegion, flatMap_paint_ofLines,
        Text.flatten_physicalLines, Piece.paint_cons]

theorem isRow_of_ofRegions {index : Nat} {regions : List Region} {fragment : Fragment}
    (member : fragment ∈ ofRegions index regions) : Text.IsRow fragment.text := by
  induction regions generalizing index with
  | nil => simp [ofRegions] at member
  | cons region regions ih =>
      rcases List.mem_append.mp member with own | later
      · obtain ⟨front, back, split⟩ := List.append_of_mem own
        obtain ⟨above, below, linesEq, _⟩ := ofLines_split split
        refine @Text.isRow_of_mem_physicalLines region.text _ ?_
        rw [linesEq]
        simp
      · exact ih later

end Fragment

namespace Line

def paint (line : Line) : Painted :=
  line.fragments.flatMap Fragment.paint

/-- The lines that fragments make up are those that counting line feeds finds. -/
theorem onLine_group {all : List Fragment} (rows : ∀ fragment ∈ all, Text.IsRow fragment.text)
    (line number : Nat) :
    Painted.onLine (line + number) line (all.flatMap Fragment.paint) =
      ((group all)[number]?.map paint).getD [] := by
  induction all generalizing line number with
  | nil => simp [group, Painted.onLine]
  | cons fragment rest ih =>
      have row := rows fragment (by simp)
      have others := @ih fun other member => rows other (by simp [member])
      have own : Text.IsRow fragment.paint.text := by rwa [Fragment.text_paint]
      rw [List.flatMap_cons, Painted.onLine_append, Painted.onLine_row own, Fragment.text_paint,
        row.count_feed]
      by_cases last : fragment.text.getLast? = some '\n'
      · have ends : fragment.endsLine = true := by simpa [Fragment.endsLine] using last
        rw [if_pos last, group, if_pos ends]
        cases number with
        | zero =>
            rw [if_pos (by omega), Painted.onLine_eq_nil (.inl (by omega))]
            simp [paint]
        | succ number =>
            have shift : line + (number + 1) = line + 1 + number := by omega
            rw [if_neg (by omega), shift, others]
            simp
      · have goesOn : ¬fragment.endsLine = true := by simpa [Fragment.endsLine] using last
        rw [if_neg last, Nat.add_zero, others, group, if_neg goesOn]
        cases group rest with
        | nil =>
            cases number with
            | zero => simp [consFragment, paint]
            | succ number => simp [consFragment]
        | cons next lines =>
            cases number with
            | zero => simp [consFragment, paint]
            | succ number => simp [consFragment]

theorem onLine_ofRegions (regions : List Region) (number : Nat) :
    Painted.onLine number 0 (Piece.paint regions) =
      ((ofRegions regions)[number]?.map paint).getD [] := by
  have lines := @onLine_group (Fragment.ofRegions 0 regions)
    (fun _ => Fragment.isRow_of_ofRegions) 0 number
  rwa [Nat.zero_add, Fragment.flatMap_paint_ofRegions] at lines

def pieces (line : Line) : List Region :=
  line.fragments.map fun fragment => ⟨fragment.kind, fragment.text⟩

theorem paint_pieces (line : Line) : Piece.paint line.pieces = line.paint := by
  simp only [pieces, paint, Piece.paint, List.flatMap_map]
  rfl

theorem dollarCount_congr {first second : Line} (same : first.pieces = second.pieces) :
    first.dollarCount = second.dollarCount := by
  have ofPieces (line : Line) : line.dollarCount =
      (line.pieces.filter (·.kind == .outside)).foldl
        (fun count piece => count + countDollars piece.text) 0 := by
    rw [pieces, List.filter_map, List.foldl_map]
    rfl
  rw [ofPieces, ofPieces, same]

/-- On one line of a fused document a fragment ends where the kind changes. -/
theorem isFused_pieces {regions : List Region} (fused : Piece.IsFused regions)
    {front back : List Line} {line : Line} (placed : LiesIn regions front line back) :
    Piece.IsFused line.pieces := by
  constructor
  · intro piece member
    obtain ⟨fragment, inLine, rfl⟩ := List.mem_map.mp member
    refine (@Fragment.index_ofRegions 0 regions fragment ?_).2.2
    rw [placed.fragmentsEq]
    simp [inLine]
  · rw [List.isChain_iff_forall_rel_of_append_cons_cons]
    intro first second left right split
    obtain ⟨before, others, whole, rfl, othersEq⟩ := List.map_eq_append_iff.mp split
    obtain ⟨fragment, tail, rfl, rfl, tailEq⟩ := List.map_eq_cons_iff.mp othersEq
    obtain ⟨next, rest, rfl, rfl, rfl⟩ := List.map_eq_cons_iff.mp tailEq
    have goesOn := placed.cut.goesOn before fragment (next :: rest) whole (by simp)
    have inRegions : Fragment.ofRegions 0 regions =
        (front.flatMap fragments ++ before) ++ fragment :: next ::
          (rest ++ back.flatMap fragments) := by
      rw [placed.fragmentsEq, whole]
      simp
    exact Fragment.kind_ne_of_next fused inRegions goesOn

end Line

def hasStrayAt (regions : List Region) (number : Nat) : Bool :=
  (Line.ofRegions regions)[number]?.any Line.hasStrayDollar

theorem hasStrayAt_congr {first second : List Region} (fused : Piece.IsFused first)
    (fused' : Piece.IsFused second) {number : Nat}
    (same : Painted.onLine number 0 (Piece.paint first) =
      Painted.onLine number 0 (Piece.paint second)) :
    hasStrayAt first number = hasStrayAt second number := by
  rw [Line.onLine_ofRegions, Line.onLine_ofRegions] at same
  have exists_pieces {regions : List Region} (fused : Piece.IsFused regions) :
      ∃ pieces, Piece.IsFused pieces ∧
        Piece.paint pieces = ((Line.ofRegions regions)[number]?.map Line.paint).getD [] ∧
        ∀ line, (Line.ofRegions regions)[number]? = some line →
          pieces = line.pieces ∧ pieces ≠ [] := by
    cases found : (Line.ofRegions regions)[number]? with
    | none => exact ⟨[], ⟨by simp, by simp⟩, rfl, by simp⟩
    | some line =>
        obtain ⟨front, back, split⟩ := List.append_of_mem (List.mem_of_getElem? found)
        have placed := Line.ofRegions_split split
        refine ⟨line.pieces, Line.isFused_pieces fused placed, by simp [Line.paint_pieces], ?_⟩
        rintro _ ⟨⟩
        exact ⟨rfl, by simpa [Line.pieces] using placed.cut.nonempty⟩
  obtain ⟨pieces, fusedPieces, paintEq, own⟩ := exists_pieces fused
  obtain ⟨pieces', fusedPieces', paintEq', own'⟩ := exists_pieces fused'
  have piecesEq := fusedPieces.eq_of_paint_eq fusedPieces' (paintEq.trans (same.trans paintEq'.symm))
  unfold hasStrayAt
  cases found : (Line.ofRegions first)[number]? with
  | none =>
      cases found' : (Line.ofRegions second)[number]? with
      | none => rfl
      | some line' =>
          rw [found] at paintEq
          have empty : pieces = [] := fusedPieces.eq_of_paint_eq ⟨by simp, by simp⟩ paintEq
          exact absurd (piecesEq ▸ empty) (own' line' found').2
  | some line =>
      cases found' : (Line.ofRegions second)[number]? with
      | none =>
          rw [found'] at paintEq'
          have empty : pieces' = [] := fusedPieces'.eq_of_paint_eq ⟨by simp, by simp⟩ paintEq'
          exact absurd (piecesEq.trans empty) (own line found).2
      | some line' =>
          have same : line.pieces = line'.pieces :=
            (own line found).1.symm.trans (piecesEq.trans (own' line' found').1)
          simp [Line.hasStrayDollar, Line.dollarCount_congr same]

end DollarMath
