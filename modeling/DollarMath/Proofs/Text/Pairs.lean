import DollarMath.Proofs.Text.Groups

/-!
The groups of a text as one pass with a stack of the open brackets sees them: a search for the
bracket that closes a group, started again after each group and after each bracket that opens none,
finds the outermost of the pairs that the pass finds.
-/

namespace DollarMath.Text

/-- The pairs of brackets of a text in the order in which they close, the text starting at the given
offset. An opening bracket is put on the stack, a closing one takes the last bracket off the stack
if there is any, and a backslash is skipped with the character after it. -/
def pairsFrom (opening closing : Char) : (offset : Nat) → (stack : List Nat) → List Char →
    List (Nat × Nat)
  | _, _, [] => []
  | offset, stack, char :: rest =>
    if char = '\\' then
      match rest with
      | [] => []
      | _ :: later => pairsFrom opening closing (offset + 2) stack later
    else if char = opening then pairsFrom opening closing (offset + 1) (offset :: stack) rest
    else if char = closing then
      match stack with
      | [] => pairsFrom opening closing (offset + 1) [] rest
      | start :: outer => (start, offset) :: pairsFrom opening closing (offset + 1) outer rest
    else pairsFrom opening closing (offset + 1) stack rest

def pairs (opening closing : Char) (text : List Char) : List (Nat × Nat) :=
  pairsFrom opening closing 0 [] text

def endsEscaping (text : List Char) : Bool :=
  text.foldl (fun escaped char => !escaped && char == '\\') false

def isOutermost (pairs : List (Nat × Nat)) (pair : Nat × Nat) : Bool :=
  !pairs.any fun outer => outer.1 < pair.1 && pair.2 < outer.2

theorem endsEscaping_escaped (char : Char) (text : List Char) :
    endsEscaping ('\\' :: char :: text) = endsEscaping text := by
  simp [endsEscaping]

theorem endsEscaping_cons {char : Char} (bare : char ≠ '\\') (text : List Char) :
    endsEscaping (char :: text) = endsEscaping text := by
  have plain : (char == '\\') = false := by simpa using bare
  simp [endsEscaping, plain]

section Pairs

variable {opening closing : Char} {offset depth : Nat} {stack inner : List Nat} {text : List Char}

@[simp] theorem pairsFrom_escaped (char : Char) :
    pairsFrom opening closing offset stack ('\\' :: char :: text) =
      pairsFrom opening closing (offset + 2) stack text := by
  rw [pairsFrom.eq_def]
  simp

theorem pairsFrom_opening (bare : opening ≠ '\\') :
    pairsFrom opening closing offset stack (opening :: text) =
      pairsFrom opening closing (offset + 1) (offset :: stack) text := by
  rw [pairsFrom.eq_def]
  simp [bare]

/-- The brackets of a pair are read one after the other, and the first one may be open already. -/
theorem bounds_pairsFrom {pair : Nat × Nat}
    (member : pair ∈ pairsFrom opening closing offset stack text) :
    (pair.1 ∈ stack ∨ offset ≤ pair.1 ∧ pair.1 < pair.2) ∧ offset ≤ pair.2 := by
  fun_induction pairsFrom opening closing offset stack text with
  | case1 => simp at member
  | case2 => simp at member
  | case3 offset stack _ later ih =>
      obtain ⟨inStack | ⟨late, order⟩, after⟩ := ih member
      · exact ⟨.inl inStack, by omega⟩
      · exact ⟨.inr ⟨by omega, order⟩, by omega⟩
  | case4 offset stack rest _ ih =>
      obtain ⟨inStack | ⟨late, order⟩, after⟩ := ih member
      · rcases List.mem_cons.mp inStack with same | inStack
        · exact ⟨.inr ⟨by omega, by omega⟩, by omega⟩
        · exact ⟨.inl inStack, by omega⟩
      · exact ⟨.inr ⟨by omega, order⟩, by omega⟩
  | case5 offset rest _ _ ih =>
      obtain ⟨inStack | ⟨late, order⟩, after⟩ := ih member
      · simp at inStack
      · exact ⟨.inr ⟨by omega, order⟩, by omega⟩
  | case6 offset rest start outer _ _ ih =>
      rcases List.mem_cons.mp member with rfl | later
      · exact ⟨.inl (by simp), Nat.le_refl _⟩
      · obtain ⟨inStack | ⟨late, order⟩, after⟩ := ih later
        · exact ⟨.inl (by simp [inStack]), by omega⟩
        · exact ⟨.inr ⟨by omega, order⟩, by omega⟩
  | case7 offset stack char rest _ _ _ ih =>
      obtain ⟨inStack | ⟨late, order⟩, after⟩ := ih member
      · exact ⟨.inl inStack, by omega⟩
      · exact ⟨.inr ⟨by omega, order⟩, by omega⟩

/-- Brackets that are never closed do not matter to the pass. -/
theorem pairsFrom_of_unclosed (unclosed : closingOffset? opening closing depth text = none)
    (size : inner.length = depth) (outer : List Nat) :
    pairsFrom opening closing offset (inner ++ outer) text =
      pairsFrom opening closing offset inner text := by
  fun_induction closingOffset? opening closing depth text generalizing offset inner with
  | case1 => rw [pairsFrom, pairsFrom]
  | case2 => rw [pairsFrom.eq_def, pairsFrom.eq_def]; simp
  | case3 depth next later ih =>
      rw [pairsFrom_escaped, pairsFrom_escaped]
      exact ih (by simpa using unclosed) size
  | case4 depth rest bare ih =>
      rw [pairsFrom_opening bare, pairsFrom_opening bare, ← List.cons_append]
      exact ih (by simpa using unclosed) (by simp [size])
  | case5 rest bare differ => simp at unclosed
  | case6 rest depth bare differ ih =>
      obtain ⟨start, others, rfl⟩ := List.exists_cons_of_length_eq_add_one size
      rw [pairsFrom.eq_def, pairsFrom.eq_def]
      simp only [List.cons_append, if_neg bare, if_neg differ, if_pos]
      rw [ih (by simpa using unclosed) (by simpa using size)]
  | case7 depth char rest bare notOpening notClosing ih =>
      rw [pairsFrom.eq_def, pairsFrom.eq_def]
      simp only [if_neg bare, if_neg notOpening, if_neg notClosing]
      exact ih (by simpa using unclosed) size

/-- The pass up to the bracket that closes a group: only brackets opened in the group are closed
before it. -/
theorem pairsFrom_of_closed {size : Nat}
    (closed : closingOffset? opening closing depth text = some size) (length : inner.length = depth) :
    ∃ found, (∀ pair ∈ found, (pair.1 ∈ inner ∨ offset ≤ pair.1) ∧ pair.2 < offset + size) ∧
      ∀ start outer, pairsFrom opening closing offset (inner ++ start :: outer) text =
        found ++ (start, offset + size) ::
          pairsFrom opening closing (offset + size + 1) outer (text.drop (size + 1)) := by
  fun_induction closingOffset? opening closing depth text generalizing offset inner size with
  | case1 => simp at closed
  | case2 => simp at closed
  | case3 depth next later ih =>
      obtain ⟨inside, closedLater, rfl⟩ := Option.map_eq_some_iff.mp closed
      obtain ⟨found, bounds, whole⟩ := @ih (offset + 2) inner inside closedLater length
      refine ⟨found, fun pair member => ?_, fun start outer => ?_⟩
      · obtain ⟨inStack | late, before⟩ := bounds pair member
        · exact ⟨.inl inStack, by omega⟩
        · exact ⟨.inr (by omega), by omega⟩
      · have stop : offset + (inside + 2) = offset + 2 + inside := by omega
        rw [pairsFrom_escaped, whole, stop]
        rfl
  | case4 depth rest bare ih =>
      obtain ⟨inside, closedLater, rfl⟩ := Option.map_eq_some_iff.mp closed
      obtain ⟨found, bounds, whole⟩ :=
        @ih (offset + 1) (offset :: inner) inside closedLater (by simp [length])
      refine ⟨found, fun pair member => ?_, fun start outer => ?_⟩
      · obtain ⟨inStack | late, before⟩ := bounds pair member
        · rcases List.mem_cons.mp inStack with same | inStack
          · exact ⟨.inr (by omega), by omega⟩
          · exact ⟨.inl inStack, by omega⟩
        · exact ⟨.inr (by omega), by omega⟩
      · have stop : offset + (inside + 1) = offset + 1 + inside := by omega
        rw [pairsFrom_opening bare, ← List.cons_append, whole, stop]
        rfl
  | case5 rest bare differ =>
      simp only [Option.some.injEq] at closed
      obtain rfl := List.length_eq_zero_iff.mp length
      subst closed
      refine ⟨[], by simp, fun start outer => ?_⟩
      rw [pairsFrom.eq_def]
      simp [bare, differ]
  | case6 rest depth bare differ ih =>
      obtain ⟨inside, closedLater, rfl⟩ := Option.map_eq_some_iff.mp closed
      obtain ⟨first, others, rfl⟩ := List.exists_cons_of_length_eq_add_one length
      obtain ⟨found, bounds, whole⟩ :=
        @ih (offset + 1) others inside closedLater (by simpa using length)
      refine ⟨(first, offset) :: found, fun pair member => ?_, fun start outer => ?_⟩
      · rcases List.mem_cons.mp member with rfl | later
        · exact ⟨.inl (by simp), by dsimp only; omega⟩
        · obtain ⟨inStack | late, before⟩ := bounds pair later
          · exact ⟨.inl (by simp [inStack]), by omega⟩
          · exact ⟨.inr (by omega), by omega⟩
      · have stop : offset + (inside + 1) = offset + 1 + inside := by omega
        rw [pairsFrom.eq_def]
        simp only [List.cons_append, if_neg bare, if_neg differ, if_pos]
        rw [whole, stop]
        rfl
  | case7 depth char rest bare notOpening notClosing ih =>
      obtain ⟨inside, closedLater, rfl⟩ := Option.map_eq_some_iff.mp closed
      obtain ⟨found, bounds, whole⟩ := @ih (offset + 1) inner inside closedLater length
      refine ⟨found, fun pair member => ?_, fun start outer => ?_⟩
      · obtain ⟨inStack | late, before⟩ := bounds pair member
        · exact ⟨.inl inStack, by omega⟩
        · exact ⟨.inr (by omega), by omega⟩
      · have stop : offset + (inside + 1) = offset + 1 + inside := by omega
        rw [pairsFrom.eq_def]
        simp only [if_neg bare, if_neg notOpening, if_neg notClosing]
        rw [whole, stop]
        rfl

/-- A pass over a text that does not end with a lone backslash goes on with the text after it. Every
bracket that is open by then stands in the text before or was open from the start. -/
theorem pairsFrom_append (bare : endsEscaping text = false) (rest : List Char) :
    ∃ found opened, pairsFrom opening closing offset stack (text ++ rest) =
        found ++ pairsFrom opening closing (offset + text.length) opened rest ∧
      (∀ pair ∈ found, pair.2 < offset + text.length) ∧
      ∀ start ∈ opened, start ∈ stack ∨ start < offset + text.length := by
  fun_induction pairsFrom opening closing offset stack text with
  | case1 offset stack => exact ⟨[], stack, rfl, by simp, fun start member => .inl member⟩
  | case2 => exact absurd bare (by decide)
  | case3 offset stack char later ih =>
      obtain ⟨found, opened, whole, before, known⟩ := ih (by rwa [endsEscaping_escaped] at bare)
      have place : offset + ('\\' :: char :: later).length = offset + 2 + later.length :=
        Nat.add_right_comm offset later.length 2
      rw [place]
      exact ⟨found, opened, by rw [List.cons_append, List.cons_append, pairsFrom_escaped, whole],
        before, known⟩
  | case4 offset stack later plain ih =>
      obtain ⟨found, opened, whole, before, known⟩ := ih (by rwa [endsEscaping_cons plain] at bare)
      have place : offset + (opening :: later).length = offset + 1 + later.length :=
        Nat.add_right_comm offset later.length 1
      rw [place]
      refine ⟨found, opened, by rw [List.cons_append, pairsFrom_opening plain, whole], before,
        fun start member => ?_⟩
      rcases known start member with inStack | early
      · rcases List.mem_cons.mp inStack with same | inStack
        · exact .inr (by omega)
        · exact .inl inStack
      · exact .inr early
  | case5 offset later plain differ ih =>
      obtain ⟨found, opened, whole, before, known⟩ := ih (by rwa [endsEscaping_cons plain] at bare)
      have place : offset + (closing :: later).length = offset + 1 + later.length :=
        Nat.add_right_comm offset later.length 1
      rw [place]
      refine ⟨found, opened, ?_, before, known⟩
      rw [← whole, List.cons_append, pairsFrom.eq_def]
      simp [plain, differ]
  | case6 offset later first outer plain differ ih =>
      obtain ⟨found, opened, whole, before, known⟩ := ih (by rwa [endsEscaping_cons plain] at bare)
      have place : offset + (closing :: later).length = offset + 1 + later.length :=
        Nat.add_right_comm offset later.length 1
      rw [place]
      refine ⟨(first, offset) :: found, opened, ?_, fun pair member => ?_, fun start member => ?_⟩
      · rw [List.cons_append, List.cons_append, ← whole, pairsFrom.eq_def]
        simp [plain, differ]
      · rcases List.mem_cons.mp member with rfl | others
        · dsimp only
          omega
        · exact before pair others
      · rcases known start member with inStack | early
        · exact .inl (by simp [inStack])
        · exact .inr early
  | case7 offset stack char later plain notOpening notClosing ih =>
      obtain ⟨found, opened, whole, before, known⟩ := ih (by rwa [endsEscaping_cons plain] at bare)
      have place : offset + (char :: later).length = offset + 1 + later.length :=
        Nat.add_right_comm offset later.length 1
      rw [place]
      refine ⟨found, opened, ?_, before, known⟩
      rw [← whole, List.cons_append, pairsFrom.eq_def]
      simp [plain, notOpening, notClosing]

/-- The bracket that closes a group opened at the given offset is its partner in the pass. -/
theorem mem_pairsFrom_iff {opened : List Nat} (early : ∀ other ∈ opened, other < offset)
    {stop : Nat} :
    (offset, stop) ∈ pairsFrom opening closing (offset + 1) (offset :: opened) text ↔
      (closingOffset? opening closing 0 text).map (· + (offset + 1)) = some stop := by
  cases closed : closingOffset? opening closing 0 text with
  | none =>
      have alone := @pairsFrom_of_unclosed _ _ (offset + 1) _ [] _ closed rfl (offset :: opened)
      rw [List.nil_append] at alone
      rw [alone]
      simp only [Option.map_none, reduceCtorEq, iff_false]
      intro member
      have bounds := (bounds_pairsFrom member).1
      simp only [List.not_mem_nil, false_or] at bounds
      omega
  | some size =>
      obtain ⟨found, bounds, whole⟩ :=
        @pairsFrom_of_closed _ _ (offset + 1) _ [] _ _ closed rfl
      have split := whole offset opened
      rw [List.nil_append] at split
      rw [split]
      simp only [Option.map_some, Option.some.injEq, List.mem_append, List.mem_cons, Prod.mk.injEq,
        true_and]
      constructor
      · rintro (inside | same | later)
        · have start := (bounds _ inside).1
          simp only [List.not_mem_nil, false_or] at start
          omega
        · omega
        · rcases (bounds_pairsFrom later).1 with inOpened | ⟨late, _⟩
          · exact absurd (early offset inOpened) (Nat.lt_irrefl _)
          · omega
      · intro same
        exact .inr (.inl (by omega))

end Pairs

/-- Of the pairs up to the end of a group only the group itself is outermost. -/
theorem filter_isOutermost {found rest : List (Nat × Nat)} {own : Nat × Nat}
    (inside : ∀ pair ∈ found, own.1 < pair.1 ∧ pair.2 < own.2)
    (beyond : ∀ pair ∈ rest, own.2 < pair.1 ∧ own.2 < pair.2) (order : own.1 ≤ own.2) :
    (found ++ own :: rest).filter (isOutermost (found ++ own :: rest)) =
      own :: rest.filter (isOutermost rest) := by
  have hidden : found.filter (isOutermost (found ++ own :: rest)) = [] := by
    rw [List.filter_eq_nil_iff]
    intro pair member
    simp only [isOutermost, Bool.not_eq_true', Bool.not_eq_false, List.any_eq_true]
    exact ⟨own, by simp, by simpa using inside pair member⟩
  have shown : isOutermost (found ++ own :: rest) own = true := by
    simp only [isOutermost, Bool.not_eq_true', List.any_eq_false, List.mem_append, List.mem_cons]
    rintro pair (inFound | rfl | inRest)
    · have := inside pair inFound
      simp
      omega
    · simp
    · have := beyond pair inRest
      simp
      omega
  have others : rest.filter (isOutermost (found ++ own :: rest)) =
      rest.filter (isOutermost rest) := by
    refine List.filter_congr fun pair member => ?_
    have := beyond pair member
    have free : (found ++ [own]).any (fun outer => outer.1 < pair.1 && pair.2 < outer.2) = false := by
      simp only [List.any_eq_false, List.mem_append, List.mem_singleton]
      rintro outer (inFound | rfl)
      · have := inside outer inFound
        simp
        omega
      · simp
        omega
    rw [isOutermost, isOutermost, ← List.singleton_append, ← List.append_assoc, List.any_append,
      free, Bool.false_or]
  rw [List.filter_append, hidden, List.nil_append, List.filter_cons_of_pos shown, others]

theorem groupsFrom_eq_filter (opening closing : Char) (offset : Nat) (text : List Char) :
    groupsFrom opening closing offset text =
      (pairsFrom opening closing offset [] text).filter
        (isOutermost (pairsFrom opening closing offset [] text)) := by
  fun_induction groupsFrom opening closing offset text with
  | case1 => rfl
  | case2 offset rest ih =>
      cases rest with
      | nil => simp [groupsFrom, pairsFrom]
      | cons next later => rw [pairsFrom_escaped, ih, List.drop_one, List.tail_cons]
  | case3 offset rest size closed bare ih =>
      obtain ⟨found, bounds, whole⟩ := @pairsFrom_of_closed _ _ (offset + 1) _ [] _ _ closed rfl
      have split := whole offset []
      have place : offset + 1 + size + 1 = offset + size + 2 := by omega
      rw [List.nil_append, place] at split
      rw [pairsFrom_opening bare, split, filter_isOutermost, ih]
      · intro pair member
        have := bounds pair member
        simp only [List.not_mem_nil, false_or] at this
        dsimp only
        omega
      · intro pair member
        have := bounds_pairsFrom member
        simp only [List.not_mem_nil, false_or] at this
        dsimp only
        omega
      · dsimp only
        omega
  | case4 offset rest closed bare ih =>
      have alone := @pairsFrom_of_unclosed _ _ (offset + 1) _ [] _ closed rfl [offset]
      rw [List.nil_append] at alone
      rw [pairsFrom_opening bare, alone, ih]
  | case5 offset char rest bare notOpening ih =>
      have skipped : pairsFrom opening closing offset [] (char :: rest) =
          pairsFrom opening closing (offset + 1) [] rest := by
        rw [pairsFrom.eq_def]
        simp [bare, notOpening]
      rw [skipped, ih]

/-- A search for groups, and for the end of the group that an opening bracket starts, agrees with a
single pass that keeps the open brackets on a stack: the groups are the pairs that lie in no other
pair, in order and apart from each other, and the end of a group is the partner of its bracket. -/
theorem groups_eq_outermost {opening : Char} (bare : opening ≠ '\\') (closing : Char)
    (text : List Char) :
    groups opening closing text =
        (pairs opening closing text).filter (isOutermost (pairs opening closing text)) ∧
      (∀ group ∈ groups opening closing text, group.1 < group.2) ∧
      (groups opening closing text).Pairwise (fun first second => first.2 < second.1) ∧
      ∀ front rest, text = front ++ opening :: rest → endsEscaping front = false → ∀ stop,
        findClosing? opening closing text front.length = some stop ↔
          (front.length, stop) ∈ pairs opening closing text := by
  have outermost := groupsFrom_eq_filter opening closing 0 text
  refine ⟨outermost, fun group member => ?_, ?_, ?_⟩
  · exact ((apart_groupsFrom opening closing 0 text).1 group member).2.1
  · exact (apart_groupsFrom opening closing 0 text).2
  · rintro front rest rfl plain stop
    obtain ⟨found, opened, whole, before, known⟩ :=
      @pairsFrom_append opening closing 0 [] front plain (opening :: rest)
    have here : (front ++ opening :: rest)[front.length]? = some opening := by simp
    have after : (front ++ opening :: rest).drop (front.length + 1) = rest := by
      simp [List.drop_append]
    rw [findClosing?, if_pos here, after, pairs, whole, pairsFrom_opening bare, Nat.zero_add,
      List.mem_append, mem_pairsFrom_iff]
    · refine ⟨.inr, fun either => either.resolve_left fun inFront => ?_⟩
      have early := before _ inFront
      dsimp only at early
      have late := (bounds_pairsFrom (whole ▸ List.mem_append_left _ inFront)).1
      simp only [List.not_mem_nil, false_or] at late
      omega
    · intro other member
      simpa using known other member

theorem groups_eq_outermost_nested :
    '(' ≠ '\\' ∧ pairs '(' ')' "(a(b)\\)) (".toList = [(2, 4), (0, 7)] ∧
      groups '(' ')' "(a(b)\\)) (".toList = [(0, 7)] ∧
      findClosing? '(' ')' "(a(b)\\)) (".toList 2 = some 4 ∧
      findClosing? '(' ')' "(a(b)\\)) (".toList 9 = none := by
  have bare : '(' ≠ '\\' := by decide
  have found : pairs '(' ')' "(a(b)\\)) (".toList = [(2, 4), (0, 7)] := by decide +kernel
  obtain ⟨outermost, _, _, partner⟩ := groups_eq_outermost bare ')' "(a(b)\\)) (".toList
  rw [found] at outermost partner
  refine ⟨bare, found, outermost, ?_, ?_⟩
  · exact (partner ['(', 'a'] "b)\\)) (".toList (by decide +kernel) (by decide) 4).mpr (by decide)
  · refine Option.eq_none_iff_forall_ne_some.mpr fun stop closed => ?_
    have member := (partner "(a(b)\\)) ".toList [] (by decide +kernel) (by decide +kernel) stop).mp
      closed
    simp at member

end DollarMath.Text
