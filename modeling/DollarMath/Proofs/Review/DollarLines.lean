import DollarMath.Proofs.Conversion.Returns
import DollarMath.Proofs.Document.Chunks
import DollarMath.Proofs.Region.LineNumbers
import DollarMath.Proofs.Review.Prose
import DollarMath.Proofs.Review.Sight

/-!
The lines that the review warns of, by their numbers: those on which the regions of the document hold
an odd number of dollars outside of code and display math, wherever the review and the regions agree
on what is display math.
-/

namespace DollarMath

namespace Veiled

def dollars (escaped : Bool) : Veiled → Nat
  | [] => 0
  | (char, shown) :: rest =>
    (if char == '$' && shown && !escaped then 1 else 0) + dollars (char == '\\') rest

/-- The lines with an odd number of dollars, given the number of the first line, whether an odd
number of dollars on it stands before the text, and whether a backslash does. -/
def oddLines (line : Nat) (odd escaped : Bool) : Veiled → List Nat
  | [] => if odd then [line] else []
  | (char, shown) :: rest =>
    if char = '\n' then (if odd then [line] else []) ++ oddLines (line + 1) false false rest
    else oddLines line (odd ^^ (char == '$' && shown && !escaped)) (char == '\\') rest

theorem oddLines_cons {char : Char} (notFeed : char ≠ '\n') (line : Nat) (odd escaped shown : Bool)
    (rest : Veiled) : oddLines line odd escaped ((char, shown) :: rest) =
      oddLines line (odd ^^ (char == '$' && shown && !escaped)) (char == '\\') rest :=
  if_neg notFeed

theorem oddLines_feed (line : Nat) (odd escaped shown : Bool) (rest : Veiled) :
    oddLines line odd escaped (('\n', shown) :: rest) =
      (if odd then [line] else []) ++ oddLines (line + 1) false false rest :=
  if_pos rfl

theorem oddLines_congr {first second : Veiled}
    (same : List.Forall₂ (fun left right => left.1 = right.1 ∧ (left.1 = '$' → left.2 = right.2))
      first second) (line : Nat) (odd escaped : Bool) :
    oddLines line odd escaped first = oddLines line odd escaped second := by
  induction same generalizing line odd escaped with
  | nil => rfl
  | @cons left right first second own _ ih =>
      obtain ⟨char, shown⟩ := left
      obtain ⟨other, shown'⟩ := right
      obtain ⟨rfl, shownEq⟩ := own
      by_cases feed : char = '\n'
      · subst feed
        rw [oddLines_feed, oddLines_feed, ih]
      · rw [oddLines_cons feed, oddLines_cons feed, ih]
        congr 2
        by_cases dollar : char = '$'
        · have same : shown = shown' := shownEq dollar
          rw [same]
        · have notDollar : (char == '$') = false := by simpa using dollar
          simp only [notDollar, Bool.false_and]

/-- A backslash before a text matters only to a dollar that the text starts with. -/
theorem oddLines_escaped {veiled : Veiled}
    (other : ∀ stroke, veiled.head? = some stroke → stroke.1 ≠ '$') (line : Nat)
    (odd escaped escaped' : Bool) :
    oddLines line odd escaped veiled = oddLines line odd escaped' veiled := by
  cases veiled with
  | nil => rfl
  | cons stroke rest =>
      obtain ⟨char, shown⟩ := stroke
      have notDollar : (char == '$') = false := by simpa using other _ rfl
      by_cases feed : char = '\n'
      · subst feed
        rw [oddLines_feed, oddLines_feed]
      · simp only [oddLines_cons feed, notDollar, Bool.false_and]

theorem oddLines_hidden {wall rest : Veiled} (free : ∀ stroke ∈ wall, stroke.2 = false)
    (other : ∀ stroke, rest.head? = some stroke → stroke.1 ≠ '$') (line : Nat) (escaped : Bool) :
    oddLines line false escaped (wall ++ rest) =
      oddLines (line + wall.text.count '\n') false false rest := by
  induction wall generalizing line escaped with
  | nil => exact oddLines_escaped other line false escaped false
  | cons stroke wall ih =>
      obtain ⟨char, shown⟩ := stroke
      obtain ⟨rfl, later⟩ := List.forall_mem_cons.mp free
      by_cases feed : char = '\n'
      · subst feed
        rw [List.cons_append, oddLines_feed, if_neg (by simp), List.nil_append, ih later]
        congr 1
        simp
        omega
      · rw [List.cons_append, oddLines_cons feed, Bool.and_false, Bool.false_and, Bool.xor_false,
          ih later]
        congr 1
        simp [feed]

theorem oddLines_hidden_feed {wall rest : Veiled} (free : ∀ stroke ∈ wall, stroke.2 = false)
    (feed : '\n' ∈ wall.text) (other : ∀ stroke, rest.head? = some stroke → stroke.1 ≠ '$')
    (line : Nat) (odd escaped : Bool) :
    oddLines line odd escaped (wall ++ rest) =
      (if odd then [line] else []) ++
        oddLines (line + wall.text.count '\n') false false rest := by
  induction wall generalizing line odd escaped with
  | nil => simp at feed
  | cons stroke wall ih =>
      obtain ⟨char, shown⟩ := stroke
      obtain ⟨rfl, later⟩ := List.forall_mem_cons.mp free
      by_cases own : char = '\n'
      · subst own
        rw [List.cons_append, oddLines_feed, oddLines_hidden later other]
        congr 2
        simp
        omega
      · have inWall : '\n' ∈ text wall := by simpa [Ne.symm own] using feed
        rw [List.cons_append, oddLines_cons own, Bool.and_false, Bool.false_and, Bool.xor_false,
          ih later inWall]
        congr 2
        simp [own]

/-- Hidden text that holds a line feed parts the lines before it from those after it. -/
theorem oddLines_wall {front wall rest : Veiled} (free : ∀ stroke ∈ wall, stroke.2 = false)
    (feed : '\n' ∈ wall.text) (other : ∀ stroke, rest.head? = some stroke → stroke.1 ≠ '$')
    (line : Nat) (odd escaped : Bool) :
    oddLines line odd escaped (front ++ (wall ++ rest)) =
      oddLines line odd escaped front ++
        oddLines (line + front.text.count '\n' + wall.text.count '\n') false false rest := by
  induction front generalizing line odd escaped with
  | nil => exact oddLines_hidden_feed free feed other line odd escaped
  | cons stroke front ih =>
      obtain ⟨char, shown⟩ := stroke
      by_cases own : char = '\n'
      · subst own
        rw [List.cons_append, oddLines_feed, ih, oddLines_feed, List.append_assoc]
        congr 3
        simp
        omega
      · rw [List.cons_append, oddLines_cons own, ih, oddLines_cons own]
        congr 2
        simp [own]

/-- The lines of a veiled text are those of what is seen of it, if no backslash is hidden right before
a dollar that is shown. -/
theorem oddLines_seen {veiled : Veiled}
    (unescaped : veiled.IsChain fun first second =>
      first.2 = false → second = ('$', true) → first.1 ≠ '\\')
    {escaped escaped' : Bool} (same : veiled.head? = some ('$', true) → escaped = escaped')
    (line : Nat) (odd : Bool) :
    oddLines line odd escaped veiled = oddLines line odd escaped' (veiled.seen.map (·, true)) := by
  induction veiled generalizing line odd escaped escaped' with
  | nil => rfl
  | cons stroke rest ih =>
      obtain ⟨char, shown⟩ := stroke
      rw [seen_cons, List.map_cons]
      by_cases feed : char = '\n'
      · subst feed
        have seen : glimpse ('\n', shown) = '\n' := by cases shown <;> rfl
        rw [seen, oddLines_feed, oddLines_feed, ih unescaped.tail fun _ => rfl]
      · cases shown with
        | true =>
            rw [glimpse_shown, oddLines_cons feed, oddLines_cons feed, ih unescaped.tail fun _ => rfl]
            by_cases dollar : char = '$'
            · rw [same (by rw [dollar]; rfl)]
            · have notDollar : (char == '$') = false := by simpa using dollar
              simp only [notDollar, Bool.false_and]
        | false =>
            have later : oddLines line odd (char == '\\') rest =
                oddLines line odd false ((seen rest).map (·, true)) := by
              refine ih unescaped.tail (fun head => ?_) line odd
              obtain ⟨others, rfl⟩ := List.head?_eq_some_iff.mp head
              simpa using (List.isChain_cons_cons.mp unescaped).1 rfl rfl
            rw [glimpse_hidden feed, oddLines_cons feed, oddLines_cons (by decide)]
            simpa using later

theorem countDollarsAfter_feed (text : List Char) :
    countDollarsAfter (some '\n') text = countDollars text := by
  cases text <;> rfl

theorem splitFeeds_feed (rest : List Char) :
    Text.splitFeeds ('\n' :: rest) = [] :: Text.splitFeeds rest := rfl

theorem splitFeeds_cons {char : Char} {rest first : List Char} {others : List (List Char)}
    (notFeed : char ≠ '\n') (split : Text.splitFeeds rest = first :: others) :
    Text.splitFeeds (char :: rest) = (char :: first) :: others := by
  unfold Text.splitFeeds at split ⊢
  rw [Text.splitAt, if_neg notFeed, split]
  rfl

theorem parity_xor (odd more : Bool) (count : Nat) :
    ((odd ^^ more).toNat + count) % 2 = (odd.toNat + ((if more then 1 else 0) + count)) % 2 := by
  cases more with
  | false => simp
  | true =>
      cases odd with
      | false => simp
      | true =>
          simp only [Bool.xor_true, Bool.not_true, Bool.toNat_false, Bool.toNat_true, if_pos]
          omega

theorem oddLines_splitFeeds (text : List Char) (line : Nat) (odd : Bool) (before : Option Char) :
    ∃ first others, Text.splitFeeds text = first :: others ∧
      oddLines line odd (before == some '\\') (text.map (·, true)) =
        (if (odd.toNat + countDollarsAfter before first) % 2 = 1 then [line] else []) ++
          ((Review.numbered (line + 1) others).filter fun part => countDollars part.2 % 2 = 1).map
            Prod.fst := by
  induction text generalizing line odd before with
  | nil => exact ⟨[], [], rfl, by cases odd <;> rfl⟩
  | cons char rest ih =>
      by_cases feed : char = '\n'
      · subst feed
        obtain ⟨first, others, split, whole⟩ := ih (line + 1) false (some '\n')
        refine ⟨[], first :: others, by rw [splitFeeds_feed, split], ?_⟩
        rw [List.map_cons, oddLines_feed]
        rw [countDollarsAfter_feed, Bool.toNat_false, Nat.zero_add] at whole
        have noEscape : (some '\n' == some '\\') = false := by decide
        rw [noEscape] at whole
        rw [whole, Review.numbered, List.filter_cons]
        congr 1
        · cases odd <;> rfl
        · split <;> simp_all
      · obtain ⟨first, others, split, whole⟩ :=
          ih line (odd ^^ (char == '$' && true && !(before == some '\\'))) (some char)
        refine ⟨char :: first, others, splitFeeds_cons feed split, ?_⟩
        rw [List.map_cons, oddLines_cons feed, countDollarsAfter]
        have escaped : (some char == some '\\') = (char == '\\') := rfl
        rw [← escaped, whole, Bool.and_true, ← bne, parity_xor]

end Veiled

namespace Painted

theorem counted_cons (char : Char) (kind : RegionKind) (rest : Painted) :
    counted ((char, kind) :: rest) = (char, kind.isCounted) :: counted rest := rfl

theorem onLine_cons_of_ne {number line : Nat} (other : line ≠ number) (stroke : Char × RegionKind)
    (rest : Painted) : onLine number line (stroke :: rest) =
      onLine number (if stroke.1 = '\n' then line + 1 else line) rest := by
  rw [onLine, if_neg other, List.nil_append]

theorem oddLines_counted (painted : Painted) (line : Nat) (odd escaped : Bool) :
    Veiled.oddLines line odd escaped painted.counted =
      (List.range' line (painted.text.count '\n' + 1)).filter fun number =>
        ((if number = line then odd.toNat else 0) + Veiled.dollars (escaped && number == line)
          (counted (onLine number line painted))) % 2 = 1 := by
  induction painted generalizing line odd escaped with
  | nil =>
      cases odd <;> simp [Veiled.oddLines, counted, onLine, Veiled.dollars, List.range'_one]
  | cons stroke painted ih =>
      obtain ⟨char, kind⟩ := stroke
      by_cases feed : char = '\n'
      · subst feed
        have size : (text (('\n', kind) :: painted)).count '\n' + 1 =
            (text painted).count '\n' + 1 + 1 := by simp
        have first : Veiled.dollars (escaped && line == line)
            (counted (onLine line line (('\n', kind) :: painted))) = 0 := by
          rw [onLine, if_pos rfl, if_pos rfl, onLine_eq_nil (.inl (by omega))]
          simp [counted, Veiled.dollars]
        rw [size, List.range'_succ, List.filter_cons, first, counted_cons, Veiled.oddLines_feed, ih]
        have later : ∀ number ∈ List.range' (line + 1) ((text painted).count '\n' + 1),
            (if number = line + 1 then false.toNat else 0) +
                Veiled.dollars (false && number == line + 1)
                  (counted (onLine number (line + 1) painted)) =
              (if number = line then odd.toNat else 0) + Veiled.dollars (escaped && number == line)
                (counted (onLine number line (('\n', kind) :: painted))) := by
          intro number member
          have below : line < number := by
            have := (List.mem_range'_1.mp member).1
            omega
          have other : number ≠ line := Nat.ne_of_gt below
          rw [onLine_cons_of_ne other.symm, if_pos rfl, if_neg other, beq_false_of_ne other]
          simp
        have rest := List.filter_congr fun number member =>
          congrArg (fun count => decide (count % 2 = 1)) (later number member)
        rw [rest]
        cases odd <;> simp
      · have size : (text ((char, kind) :: painted)).count '\n' = (text painted).count '\n' := by
          simp [feed]
        rw [counted_cons, Veiled.oddLines_cons feed, ih, size]
        refine List.filter_congr fun number _ => congrArg (fun count => decide (count = 1)) ?_
        by_cases own : number = line
        · subst own
          rw [if_pos rfl, if_pos rfl, onLine, if_pos rfl, if_neg feed, List.singleton_append,
            counted_cons, Veiled.dollars, beq_self_eq_true, Bool.and_true, Bool.and_true,
            Veiled.parity_xor]
        · have other : (number == line) = false := by simpa using own
          rw [if_neg own, if_neg own, onLine_cons_of_ne (Ne.symm own), if_neg feed, other,
            Bool.and_false, Bool.and_false]

def oddLines (painted : Painted) : List Nat :=
  (List.range' 1 (painted.text.count '\n' + 1)).filter fun number =>
    Veiled.dollars false (counted (onLine number 1 painted)) % 2 = 1

theorem oddLines_eq (painted : Painted) :
    painted.oddLines = Veiled.oddLines 1 false false painted.counted := by
  rw [oddLines_counted, oddLines]
  simp

theorem text_counted (painted : Painted) : Veiled.text painted.counted = painted.text := by
  rw [Veiled.text, counted, List.map_map]
  rfl

end Painted

namespace Review

def dollarFindings (line : Nat) (prose : List Char) : List Finding :=
  (numbered line (Text.splitFeeds (blankCode (blankSpans (DisplayMath.spans prose) 0 prose)))).filterMap
    fun numbered => if countDollars numbered.2 % 2 = 1 then some (.oddDollars numbered.1) else none

theorem filterMap_numbered (line : Nat) (visible : List Char) :
    ((numbered line (Text.splitFeeds visible)).filterMap fun numbered =>
        if countDollars numbered.2 % 2 = 1 then some (Finding.oddDollars numbered.1) else none) =
      (Veiled.oddLines line false false (visible.map (·, true))).map .oddDollars := by
  obtain ⟨first, others, split, whole⟩ := Veiled.oddLines_splitFeeds visible line false none
  have later : ((numbered (line + 1) others).filterMap fun numbered =>
      if countDollars numbered.2 % 2 = 1 then some (Finding.oddDollars numbered.1) else none) =
      (((numbered (line + 1) others).filter fun numbered => countDollars numbered.2 % 2 = 1).map
        Prod.fst).map .oddDollars := by
    rw [List.map_map, ← List.filterMap_eq_map, List.filterMap_filter]
    simp
  have noEscape : (none == some '\\') = false := rfl
  rw [noEscape, Bool.toNat_false, Nat.zero_add] at whole
  rw [whole, split, numbered, List.filterMap_cons, later, List.map_append, countDollars]
  by_cases own : countDollarsAfter none first % 2 = 1
  · rw [if_pos own, if_pos own]
    rfl
  · rw [if_neg own, if_neg own]
    rfl

theorem dollarFindings_nil (line : Nat) : dollarFindings line [] = [] := by
  simp [dollarFindings, blankSpans, blankCode, Text.scan, Text.splitFeeds, Text.splitAt, numbered,
    countDollars, countDollarsAfter]

/-- What the review finds in a part of the prose is what the regions of that part hold. -/
theorem SeesAlike.dollarFindings_eq {prose : List Char} (alike : SeesAlike prose)
    (followed : prose.IsChain fun first second => first = '\r' → second = '\n') (line : Nat) :
    dollarFindings line prose = (Veiled.oddLines line false false
      (Painted.counted (Piece.paint (Document.proseRegions prose)))).map .oddDollars := by
  have seen : Veiled.oddLines line false false (sight prose) =
      Veiled.oddLines line false false ((sight prose).seen.map (·, true)) :=
    Veiled.oddLines_seen alike.unescaped (fun _ => rfl) line false
  rw [dollarFindings, filterMap_numbered, alike.seen_eq followed, ← seen,
    Veiled.oddLines_congr (alike.counted followed)]

theorem checkDollars_split (text : List Char) :
    checkDollars text =
      (proseFrom 1 (Fence.split text)).flatMap fun part => dollarFindings part.1 part.2 := by
  rw [checkDollars, prose_eq_proseFrom]
  rfl

theorem flatMap_proseFrom_filter (segments : List Segment) (line : Nat) :
    ((proseFrom line (segments.filter (!·.text.isEmpty))).flatMap fun part =>
        dollarFindings part.1 part.2) =
      (proseFrom line segments).flatMap fun part => dollarFindings part.1 part.2 := by
  induction segments generalizing line with
  | nil => rfl
  | cons segment segments ih =>
      rw [List.filter_cons]
      split
      next =>
        rw [proseFrom, proseFrom]
        split
        next => rw [List.flatMap_cons, List.flatMap_cons, ih]
        next => exact ih _
      next empty =>
        have isNil : segment.text = [] := by simpa using empty
        rw [ih, proseFrom, isNil, List.count_nil, Nat.add_zero]
        split
        next => rw [List.flatMap_cons, dollarFindings_nil, List.nil_append]
        next => rfl

theorem head_counted {before : Option Char} {block prose : List Char} {parts : Fence.Parts}
    (framed : Fence.Framed before ((block, prose) :: parts)) (stroke : Char × Bool)
    (head : (Painted.counted (Chunks.paint (Piece.paint (Document.proseRegions prose))
      (Chunks.ofParts parts))).head? = some stroke) : stroke.1 ≠ '$' := by
  have textEq : Veiled.text (Painted.counted (Chunks.paint
      (Piece.paint (Document.proseRegions prose)) (Chunks.ofParts parts))) =
      Piece.join (Fence.assemble prose parts) := by
    rw [Painted.text_counted, Chunks.text_paint, Chunks.parts_ofParts, Painted.text_paint,
      Document.join_proseRegions]
  obtain ⟨others, whole⟩ := List.head?_eq_some_iff.mp head
  rw [whole, Veiled.text_cons] at textEq
  cases prose with
  | nil =>
      cases parts with
      | nil => simp [Fence.assemble] at textEq
      | cons next parts => exact absurd rfl framed.filled
  | cons char prose =>
      have returns := framed.2.2.1 char rfl
      have same : stroke.1 = char := by
        simp only [Fence.assemble, Piece.join_cons, List.cons_append, List.cons.injEq] at textEq
        exact textEq.1
      rw [same]
      rintro rfl
      exact absurd returns (by decide)

theorem flatMap_dollarFindings {before : Option Char} {front : List Char} {parts : Fence.Parts}
    (framed : Fence.Framed before parts) (feeds : ∀ part ∈ parts, '\n' ∈ part.1)
    (own : ∀ prose ∈ front :: parts.map Prod.snd, ∀ line, dollarFindings line prose =
      (Veiled.oddLines line false false
        (Painted.counted (Piece.paint (Document.proseRegions prose)))).map .oddDollars)
    (line : Nat) :
    ((proseFrom line (Fence.assemble front parts)).flatMap fun part =>
        dollarFindings part.1 part.2) =
      (Veiled.oddLines line false false (Painted.counted (Chunks.paint
        (Piece.paint (Document.proseRegions front)) (Chunks.ofParts parts)))).map .oddDollars := by
  induction parts generalizing front line before with
  | nil => simp [Fence.assemble, proseFrom, Chunks.ofParts, own]
  | cons part parts ih =>
      obtain ⟨block, prose⟩ := part
      have rest := @ih _ prose framed.2.2.2 (List.forall_mem_cons.mp feeds).2
        (List.forall_mem_cons.mp own).2 (line + front.count '\n' + block.count '\n')
      have first := (List.forall_mem_cons.mp own).1 line
      have hidden : ∀ stroke ∈ Painted.counted (block.map (·, .code)), stroke.2 = false := by
        simp [Painted.counted, RegionKind.isCounted]
      have blockEq : Veiled.text (Painted.counted (block.map (·, .code))) = block := by
        rw [Painted.text_counted, Painted.text_map]
      have frontEq : Veiled.text (Painted.counted (Piece.paint (Document.proseRegions front))) =
          front := by
        rw [Painted.text_counted, Painted.text_paint, Document.join_proseRegions]
      have feed := (List.forall_mem_cons.mp feeds).1
      have wall := @Veiled.oddLines_wall (Painted.counted (Piece.paint (Document.proseRegions front)))
        _ _ hidden (by rwa [blockEq]) (head_counted framed) line false false
      rw [frontEq, blockEq] at wall
      rw [Chunks.ofParts, List.map_cons, Chunks.paint_cons, Painted.counted_append,
        Painted.counted_append, ← Chunks.ofParts, wall, List.map_append, ← first, ← rest]
      simp [Fence.assemble, proseFrom, Nat.add_assoc]

/-- The review warns, in order, of the lines with an odd number of dollars outside of code and display
math, where it sees prose as the regions do. -/
theorem checkDollars_eq_oddLines {text : List Char}
    (followed : text.IsChain fun first second => first = '\r' → second = '\n')
    (feeds : ∀ segment ∈ Fence.split text, segment.kind = .code → '\n' ∈ segment.text)
    (alike : ∀ segment ∈ Fence.split text, segment.kind = .prose → SeesAlike segment.text) :
    checkDollars text =
      (Painted.oddLines (Piece.paint (Document.regions text))).map Finding.oddDollars := by
  obtain ⟨front, parts, splitEq, framed, painted⟩ := Document.exists_chunks text
  rw [Fence.fuse_assemble framed] at splitEq
  have inSplit {segment : Segment} (member : segment ∈ Fence.assemble front parts)
      (filled : segment.text ≠ []) : segment ∈ Fence.split text := by
    rw [splitEq]
    exact List.mem_filter.mpr ⟨member, by simpa using filled⟩
  have fed : ∀ part ∈ parts, '\n' ∈ part.1 := by
    intro part member
    have block : ⟨.code, part.1⟩ ∈ Fence.assemble front parts :=
      List.mem_cons_of_mem _ (Fence.mem_segmentsOf.mpr ⟨part, member, .inl rfl⟩)
    exact feeds _ (inSplit block (framed.isBlock member).ne_nil) rfl
  have own : ∀ prose ∈ front :: parts.map Prod.snd, ∀ line, dollarFindings line prose =
      (Veiled.oddLines line false false
        (Painted.counted (Piece.paint (Document.proseRegions prose)))).map .oddDollars := by
    intro prose member line
    by_cases empty : prose = []
    · have unpainted : Piece.paint (Document.proseRegions []) = [] :=
        @Document.paint_segmentRegions_of_empty ⟨.prose, []⟩ rfl
      rw [empty, dollarFindings_nil, unpainted]
      rfl
    · have inParts : ⟨.prose, prose⟩ ∈ Fence.assemble front parts := by
        rcases List.mem_cons.mp member with rfl | later
        · exact List.mem_cons_self
        · obtain ⟨part, inside, rfl⟩ := List.mem_map.mp later
          exact List.mem_cons_of_mem _ (Fence.mem_segmentsOf.mpr ⟨part, inside, .inr rfl⟩)
      have inText := inSplit inParts empty
      have part : prose <:+: text := by
        obtain ⟨before, after, whole⟩ := List.append_of_mem inText
        rw [← Fence.join_split text, whole, Piece.join_append, Piece.join_cons, ← List.append_assoc]
        exact ⟨_, _, rfl⟩
      have followed' := List.IsChain.infix followed part
      exact (alike _ inText rfl).dollarFindings_eq followed' line
  rw [checkDollars_split, splitEq, flatMap_proseFrom_filter, flatMap_dollarFindings framed fed own,
    painted, Painted.oddLines_eq]

theorem checkDollars_eq_oddLines_document :
    let text :=
      "It is $5, not \x60$6\x60\n\x60\x60\x60\n$\n\x60\x60\x60\n[$a](b), \\$ and $x$\n$$\ny$z\n$$\n".toList
    text.IsChain (fun first second => first = '\r' → second = '\n') ∧
      (∀ segment ∈ Fence.split text, segment.kind = .code → '\n' ∈ segment.text) ∧
      (∀ segment ∈ Fence.split text, segment.kind = .prose → SeesAlike segment.text) ∧
      checkDollars text =
        (Painted.oddLines (Piece.paint (Document.regions text))).map Finding.oddDollars ∧
      checkDollars text = [.oddDollars 1, .oddDollars 5] := by
  refine ⟨by decide +kernel, by decide +kernel, by decide +kernel, ?_, by decide +kernel⟩
  exact checkDollars_eq_oddLines (by decide +kernel) (by decide +kernel) (by decide +kernel)

/-- The dollars of two pieces of code look to the review like display math with a dollar in it. -/
theorem checkDollars_ne_oddLines :
    checkDollars "\x60$$\x60 $ \x60$$\x60".toList = [] ∧
      Painted.oddLines (Piece.paint (Document.regions "\x60$$\x60 $ \x60$$\x60".toList)) = [1] := by
  decide +kernel

end Review

end DollarMath
