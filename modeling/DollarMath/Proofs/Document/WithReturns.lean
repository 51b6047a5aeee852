import DollarMath.Proofs.Document.Lossless
import DollarMath.Proofs.Region.WithReturns

/-!
A document with a carriage return before every line feed has the regions of the document without.
-/

namespace DollarMath

namespace InlineCode

def isBody (char : Char) : Bool :=
  char != '\x60' && !Text.isReturn char

theorem span_cons (before : Option Char) (rest : List Char) :
    span before ('\x60' :: rest) =
      if !(rest.takeWhile isBody).isEmpty && (rest.dropWhile isBody).head? == some '\x60' then
        some ((rest.takeWhile isBody).length + 2, ())
      else none := by
  rw [← Text.drop_takeWhile]
  rfl

theorem keeps_span : Text.Recognizer.Keeps span id fun _ _ _ => True := by
  refine .of_word ['\x60'] (by decide) (by decide) ?_ ?_ ?_
  · intro before text other
    unfold span
    split
    next rest => exact absurd rfl (other rest)
    next => rfl
  · intro before rest free
    have whole := List.takeWhile_append_dropWhile (p := isBody) (l := rest)
    rw [List.singleton_append, List.singleton_append, span_cons, span_cons,
      Text.takeWhile_withReturns (by decide),
      Text.dropWhile_withReturns (by decide), Text.isEmpty_withReturns, Text.head?_withReturns,
      Text.map_asReturn_beq (by decide)]
    generalize rest.takeWhile isBody = body at whole ⊢
    generalize rest.dropWhile isBody = tail at whole ⊢
    by_cases closed : (!body.isEmpty && tail.head? == some '\x60') = true
    · have head : tail.head? = some '\x60' := by
        simp only [Bool.and_eq_true, beq_iff_eq] at closed
        exact closed.2
      obtain ⟨left, rfl⟩ := List.head?_eq_some_iff.mp head
      rw [if_pos closed, if_pos closed, ← whole, Option.map_some, Text.take_between]
      simp [Text.withReturns_cons]
    · rw [if_neg closed, if_neg closed]
      rfl
  · intro before text size value found
    obtain ⟨taken, left, textEq, sizeEq, filled, _⟩ := span_eq_some found
    exact ⟨taken, left, textEq, sizeEq, filled⟩

theorem split_withReturns {regions : List Region} (free : '\r' ∉ Piece.join regions) :
    split (regions.map Piece.withReturns) = (split regions).map Piece.withReturns :=
  reviseOutside_substitution keeps_span (carries_marking id .code) free
    fun _ _ _ found _ => found.meets_true

end InlineCode

def isWithinDollars (char : Char) : Bool :=
  char != '$' && char != '\n'

theorem dropWhile_withinDollars (text : List Char) :
    (∃ left, text.dropWhile isWithinDollars = '$' :: left ∧
      (Text.withReturns text).dropWhile isWithinDollars = '$' :: Text.withReturns left ∧
      (Text.withReturns text).takeWhile isWithinDollars = text.takeWhile isWithinDollars) ∨
    ((∀ left, text.dropWhile isWithinDollars ≠ '$' :: left) ∧
      ∀ left, (Text.withReturns text).dropWhile isWithinDollars ≠ '$' :: left) := by
  refine Text.dropWhile_line_withReturns (by decide) (by decide) (by decide) ?_ text
  intro char stops
  by_cases dollar : char = '$'
  · exact .inl dollar
  · exact .inr (by simpa [isWithinDollars, dollar] using stops)

theorem withReturns_withinDollars (text : List Char) :
    Text.withReturns (text.takeWhile isWithinDollars) = text.takeWhile isWithinDollars := by
  apply Text.withReturns_of_free
  intro member
  have within := List.mem_takeWhile_imp member
  exact absurd within (by decide)

def betweenDollars {α : Type} (accepts : List Char → Option Char → Bool) (read : List Char → α) :
    Text.Recognizer α
  | before, '$' :: rest =>
    if before == some '\\' || before == some '$' then none
    else
      let inside := rest.takeWhile isWithinDollars
      match rest.drop inside.length with
      | '$' :: after =>
        if accepts inside after.head? then some (inside.length + 2, read inside) else none
      | _ => none
  | _, _ => none

section BetweenDollars

variable {α : Type} {accepts : List Char → Option Char → Bool} {read : List Char → α}

theorem betweenDollars_cons (before : Option Char) (rest : List Char) :
    betweenDollars accepts read before ('$' :: rest) =
      if before == some '\\' || before == some '$' then none
      else
        match rest.dropWhile isWithinDollars with
        | '$' :: after =>
          if accepts (rest.takeWhile isWithinDollars) after.head? then
            some ((rest.takeWhile isWithinDollars).length + 2,
              read (rest.takeWhile isWithinDollars))
          else none
        | _ => none := by
  rw [← Text.drop_takeWhile]
  rfl

theorem betweenDollars_closed {rest after : List Char}
    (closed : rest.dropWhile isWithinDollars = '$' :: after) (before : Option Char) :
    betweenDollars accepts read before ('$' :: rest) =
      if before == some '\\' || before == some '$' then none
      else if accepts (rest.takeWhile isWithinDollars) after.head? then
        some ((rest.takeWhile isWithinDollars).length + 2, read (rest.takeWhile isWithinDollars))
      else none := by
  simp only [betweenDollars_cons, closed]

theorem betweenDollars_open {rest : List Char}
    (unclosed : ∀ after, rest.dropWhile isWithinDollars ≠ '$' :: after) (before : Option Char) :
    betweenDollars accepts read before ('$' :: rest) = none := by
  rw [betweenDollars_cons]
  split
  next => rfl
  next =>
    split
    next after closed => exact absurd closed (unclosed after)
    next => rfl

theorem keeps_betweenDollars (takes : (betweenDollars accepts read).Takes) {carry : α → α}
    (same : ∀ inside next, accepts inside (next.map Text.asReturn) = accepts inside next)
    (carried : ∀ inside, Text.withReturns inside = inside → carry (read inside) = read inside) :
    (betweenDollars accepts read).Keeps carry fun _ _ _ => True := by
  refine .of_word ['$'] (by decide) (by decide) ?_ ?_ takes
  · intro before text other
    unfold betweenDollars
    split
    next rest => exact absurd rfl (other rest)
    next => rfl
  · intro before rest free
    have whole := List.takeWhile_append_dropWhile (p := isWithinDollars) (l := rest)
    have body := withReturns_withinDollars rest
    rw [List.singleton_append, List.singleton_append]
    rcases dropWhile_withinDollars rest with ⟨left, closed, closed', kept⟩ | ⟨unclosed, unclosed'⟩
    · rw [betweenDollars_closed closed', betweenDollars_closed closed, kept,
        Text.head?_withReturns, same]
      rw [closed] at whole
      generalize rest.takeWhile isWithinDollars = inside at whole body
      rw [← whole]
      split
      next => rfl
      next =>
        split
        next =>
          rw [Option.map_some, Text.take_between, carried inside body]
          simp [Text.withReturns_cons, body]
        next => rfl
    · rw [betweenDollars_open unclosed, betweenDollars_open unclosed']
      rfl

end BetweenDollars

namespace InlineMath

def fits (body : List Char) (next : Option Char) : Bool :=
  !body.head?.any Text.isBlank &&
    (body.getLast?.any fun char => !Text.isBlank char && char != '\\') &&
    !next.any fun char => char == '$' || Text.isDecimal char

theorem span_eq : span = betweenDollars fits fun _ => () := rfl

theorem keeps_span : Text.Recognizer.Keeps span id fun _ _ _ => True := by
  have takes : Text.Recognizer.Takes span := fun _ _ _ _ found => span_eq_some found
  rw [span_eq] at takes ⊢
  refine keeps_betweenDollars takes ?_ fun _ _ => rfl
  intro body next
  rw [fits, Text.any_asReturn (by decide)]
  rfl

theorem split_withReturns {regions : List Region} (free : '\r' ∉ Piece.join regions) :
    split (regions.map Piece.withReturns) = (split regions).map Piece.withReturns :=
  reviseOutside_substitution keeps_span (carries_marking id .inline) free
    fun _ _ _ found _ => found.meets_true

end InlineMath

namespace Link

theorem afterScheme?_withReturns {text : List Char} (free : '\r' ∉ text) :
    afterScheme? (Text.withReturns text) = (afterScheme? text).map Text.withReturns := by
  cases text with
  | nil => rfl
  | cons first rest =>
      by_cases feed : first = '\n'
      · subst feed
        rfl
      · have bare : '\r' ∉ rest.dropWhile isSchemeChar :=
          fun member => free (List.mem_cons_of_mem _ ((List.dropWhile_sublist _).subset member))
        rw [Text.withReturns_cons feed, afterScheme?, afterScheme?,
          Text.dropWhile_withReturns (by decide), Text.afterWord?_withReturns (by decide) bare]
        split <;> rfl

theorem address_of_none {text : List Char} (noScheme : afterScheme? text = none)
    (before : Option Char) : address before text = none := by
  rw [address, noScheme]

theorem address_of_some {text rest : List Char} (scheme : afterScheme? text = some rest)
    (before : Option Char) :
    address before text =
      if (rest.takeWhile isAddressChar).isEmpty then none
      else some (text.length - rest.length + (rest.takeWhile isAddressChar).length, ()) := by
  rw [address, scheme]

theorem keeps_address : Text.Recognizer.Keeps address id fun _ _ _ => True := by
  refine .of_same ?_ ?_ ?_
  · intro before char rest ret
    have notAlpha : char.isAlpha = false := by
      simp only [Text.isReturn, Bool.or_eq_true, beq_iff_eq] at ret
      rcases ret with rfl | rfl <;> decide
    exact address_of_none (by simp [afterScheme?, notAlpha]) before
  · intro before text free
    cases opened : afterScheme? text with
    | none =>
        have opened' := afterScheme?_withReturns free
        rw [opened] at opened'
        rw [address_of_none opened, address_of_none opened']
        rfl
    | some rest =>
        have opened' := afterScheme?_withReturns free
        rw [opened] at opened'
        obtain ⟨scheme, rfl⟩ := afterScheme?_eq_some opened
        rw [address_of_some opened, address_of_some opened',
          Text.takeWhile_withReturns (by decide), Text.isEmpty_withReturns]
        have whole := List.takeWhile_append_dropWhile (p := isAddressChar) (l := rest)
        generalize rest.takeWhile isAddressChar = body at whole ⊢
        split
        next => rfl
        next =>
          have size : (scheme ++ rest).length - rest.length + body.length =
              (scheme ++ body).length := by
            simp only [List.length_append]
            omega
          rw [Option.map_some, size, ← whole, ← List.append_assoc, List.take_left]
          simp only [Text.withReturns_append, List.length_append, id]
          congr 2
          omega
  · intro before text size value found
    obtain ⟨taken, left, textEq, sizeEq, filled, _⟩ := address_eq_some found
    exact ⟨taken, left, textEq, sizeEq, filled⟩

theorem isBlob_withReturns (text : List Char) : isBlob (Text.withReturns text) = isBlob text := by
  by_cases feed : '\n' ∈ text
  · have feed' := (Text.mem_withReturns (by decide)).mpr feed
    simp [isBlob, feed, feed']
  · rw [Text.withReturns_of_free feed]

theorem freezeLine_withReturns {line : List Char} (free : '\r' ∉ line) :
    Piece.paint (freezeLine (Text.withReturns line)) =
      Piece.paint ((freezeLine line).map Piece.withReturns) := by
  unfold freezeLine
  dsimp only
  rw [Text.lineBody_withReturns, Text.strip_withReturns, isBlob_withReturns,
    Text.lineReturn_withReturns]
  split
  next => rfl
  next =>
    exact substitution_withReturns keeps_address (carries_marking id .link) free
      (fun found _ => found.meets_true) none none

theorem freeze_withReturns {regions : List Region} (free : '\r' ∉ Piece.join regions) :
    freeze (regions.map Piece.withReturns) = (freeze regions).map Piece.withReturns := by
  apply reviseOutside_withReturns
  intro region member _ before after
  have bare : '\r' ∉ (Text.lines region.text).flatten := by
    rw [Text.flatten_lines]
    exact fun inside => free (List.mem_flatMap.mpr ⟨region, member, inside⟩)
  rw [Text.lines_withReturns (by rwa [Text.flatten_lines] at bare)]
  generalize Text.lines region.text = lines at bare
  induction lines with
  | nil => rfl
  | cons line lines ih =>
      rw [List.flatten_cons, List.mem_append, not_or] at bare
      rw [List.map_cons, List.flatMap_cons, List.flatMap_cons, List.map_append,
        Piece.paint_append, Piece.paint_append, freezeLine_withReturns bare.1, ih bare.2]

end Link

namespace DisplayMath

theorem isDelimiterLine_withReturns (line : List Char) :
    isDelimiterLine (Text.withReturns line) = isDelimiterLine line := by
  rw [isDelimiterLine, isDelimiterLine, Text.strip_withReturns, Bool.eq_iff_iff, beq_iff_eq,
    beq_iff_eq, Text.withReturns_eq_iff (by decide)]

theorem block?_withReturns (line : List Char) (rest : List (List Char)) :
    Text.block? closer? (Text.withReturns line) (rest.map Text.withReturns) =
      (Text.block? closer? line rest).map fun parts => (parts.1.map Text.withReturns,
        Text.withReturns parts.2.1, parts.2.2.map Text.withReturns) := by
  refine Text.block?_map (fun line => ?_) fun line closes closer other => ?_
  · rw [closer?, closer?, isDelimiterLine_withReturns]
  · obtain ⟨_, rfl⟩ := Option.ite_some_none_eq_some.mp closer
    exact isDelimiterLine_withReturns other

theorem splitAtFirst?_feed (text : List Char) :
    Text.splitAtFirst? ['$', '$'] ('\n' :: text) =
      (Text.splitAtFirst? ['$', '$'] text).map fun parts => ('\n' :: parts.1, parts.2) := by
  simp [Text.splitAtFirst?, Text.splitWhere?, Text.afterWord?]

theorem onLine_cons (before : Option Char) (first : Char) (rest : List Char) :
    onLine before ('$' :: '$' :: first :: rest) =
      match Text.splitAtFirst? ['$', '$'] rest with
      | some (body, _) =>
        if (first :: body).contains '\n' then none else some (body.length + 5, ())
      | none => none :=
  rfl

theorem keeps_onLine : Text.Recognizer.Keeps onLine id fun _ _ _ => True := by
  refine .of_word ['$', '$'] (by decide) (by decide) ?_ ?_ ?_
  · intro before text other
    unfold onLine
    split
    next first rest => exact absurd rfl (other _)
    next => rfl
  · intro before rest free
    cases rest with
    | nil => rfl
    | cons first tail =>
        have bare : '\r' ∉ tail := fun member => free (by simp [member])
        simp only [List.cons_append, List.nil_append]
        rw [onLine_cons]
        by_cases feed : first = '\n'
        · subst feed
          rw [Text.withReturns_feed, onLine_cons, splitAtFirst?_feed]
          cases Text.splitAtFirst? ['$', '$'] (Text.withReturns tail) <;>
            cases Text.splitAtFirst? ['$', '$'] tail <;> simp
        · rw [Text.withReturns_cons feed, onLine_cons,
            Text.splitAtFirst?_withReturns (by decide) (by decide) bare]
          cases split : Text.splitAtFirst? ['$', '$'] tail with
          | none => rfl
          | some parts =>
              obtain ⟨body, back⟩ := parts
              have cut : '$' :: '$' :: first :: tail =
                  ('$' :: '$' :: first :: body ++ ['$', '$']) ++ back := by
                rw [Text.splitAtFirst?_eq_some split]
                simp
              have size : body.length + 5 =
                  ('$' :: '$' :: first :: body ++ ['$', '$']).length := by
                simp
              have same : (Text.withReturns (first :: body)).contains '\n' =
                  (first :: body).contains '\n' :=
                Text.contains_withReturns (by decide) _
              rw [Text.withReturns_cons feed] at same
              simp only [Option.map_some, Prod.map_apply, same]
              split
              next => rfl
              next =>
                rw [Option.map_some, size, cut, List.take_left]
                simp [Text.withReturns_cons, feed]
  · intro before text size value found
    obtain ⟨init, left, rfl, rfl⟩ := onLine_eq_some found
    exact ⟨init ++ ['$'], left, by simp, by simp, by simp⟩

theorem spansFrom_of_some {offset : Nat} {line last : List Char}
    {rest inside after : List (List Char)}
    (found : Text.block? closer? line rest = some (inside, last, after)) :
    spansFrom offset (line :: rest) =
      ⟨offset, offset + line.length + inside.flatten.length + last.length⟩ ::
        spansFrom (offset + line.length + inside.flatten.length + last.length) after := by
  rw [spansFrom]
  split
  next inside' last' after' found' =>
    rw [found] at found'
    obtain ⟨rfl, rfl, rfl⟩ : inside = inside' ∧ last = last' ∧ after = after' := by
      simpa using found'
    rfl
  next unfound => simp [found] at unfound

theorem spansFrom_of_none {offset : Nat} {line : List Char} {rest : List (List Char)}
    (noBlock : Text.block? closer? line rest = none) :
    spansFrom offset (line :: rest) =
      Text.hitSpans offset (Text.scan onLine none line) ++
        spansFrom (offset + line.length) rest := by
  rw [spansFrom]
  split
  next found => simp [noBlock] at found
  next => rfl

theorem spansFrom_withReturns {whole front : List Char} {lines : List (List Char)}
    (wholeEq : whole = front ++ lines.flatten) (free : '\r' ∉ lines.flatten) :
    spansFrom (Text.withReturns front).length (lines.map Text.withReturns) =
      (spansFrom front.length lines).map (Span.withReturns whole) := by
  induction count : lines.length using Nat.strong_induction_on generalizing front lines with
  | _ size ih =>
      cases lines with
      | nil => rw [List.map_nil, spansFrom, spansFrom]; rfl
      | cons line rest =>
          rw [List.length_cons] at count
          rw [List.flatten_cons] at wholeEq free
          rw [List.mem_append, not_or] at free
          have same := block?_withReturns line rest
          cases found : Text.block? closer? line rest with
          | none =>
              rw [found] at same
              have parts : Text.scan onLine none (Text.withReturns line) =
                  (Text.scan onLine none line).flatMap (Text.Found.withReturns id) :=
                Text.scan_withReturns keeps_onLine free.1 fun part _ => part.meets_true
              have texts := Text.flatMap_text_scan onLine none line
              have later := @ih rest.length (by omega) (front ++ line) rest (by simp [wholeEq])
                free.2 rfl
              rw [Text.withReturns_append, List.length_append, List.length_append] at later
              rw [List.map_cons, spansFrom_of_none found, spansFrom_of_none same, List.map_append,
                parts, later]
              congr 1
              exact hitSpans_withReturns id (by rw [texts, wholeEq, List.append_assoc])
          | some block =>
              obtain ⟨inside, last, after⟩ := block
              rw [found] at same
              have shorter := Text.block?_length found
              have restEq := (block?_eq_some_iff.mp found).2.1
              have wholeEq' :
                  whole = (front ++ line ++ inside.flatten ++ last) ++ after.flatten := by
                simp [wholeEq, restEq]
              have bare : '\r' ∉ after.flatten := fun member => free.2 (by simp [restEq, member])
              have later := @ih after.length (by omega) _ after wholeEq' bare rfl
              have start : Text.shift whole front.length = (Text.withReturns front).length := by
                rw [wholeEq, Text.shift_length]
              have stop : Text.shift whole (front ++ line ++ inside.flatten ++ last).length =
                  (Text.withReturns (front ++ line ++ inside.flatten ++ last)).length := by
                rw [wholeEq', Text.shift_length]
              simp only [Text.withReturns_append, Text.withReturns_flatten, List.length_append]
                at later stop
              rw [List.map_cons, spansFrom_of_some found, spansFrom_of_some same, List.map_cons,
                Span.withReturns]
              dsimp only
              rw [start, stop, later]

theorem masked_withReturns (regions : List Region) :
    masked (regions.map Piece.withReturns) = Text.withReturns (masked regions) := by
  induction regions with
  | nil => rfl
  | cons region regions ih =>
      rw [masked, masked] at ih ⊢
      rw [List.map_cons, List.flatMap_cons, List.flatMap_cons, Text.withReturns_append, ih]
      congr 1
      have same : region.withReturns.isOutside = region.isOutside := rfl
      rw [same, Piece.text_withReturns]
      split
      · rfl
      · generalize region.text = text
        induction text with
        | nil => rfl
        | cons char text ih =>
            by_cases feed : char = '\n'
            · subst feed
              rw [Text.withReturns_feed, List.map_cons, List.map_cons, List.map_cons, ih]
              rfl
            · rw [Text.withReturns_cons feed, List.map_cons, List.map_cons, ih]
              split
              · rw [Text.withReturns_cons feed]
              · rw [Text.withReturns_cons (by decide)]

theorem paint_markText_withReturns {whole front text back : List Char} (spans : List Span)
    (wholeEq : whole = front ++ text ++ back) :
    Piece.paint (markText (spans.map (Span.withReturns whole)) (Text.withReturns front).length
        (Text.withReturns text)) =
      Piece.paint ((markText spans front.length text).map Piece.withReturns) := by
  induction text generalizing front with
  | nil => rfl
  | cons char text ih =>
      have wholeEq' : whole = (front ++ [char]) ++ text ++ back := by simp [wholeEq]
      have later := ih wholeEq'
      have grows := Text.length_lt_withReturns_concat front char
      have covered {place : Nat} (low : (Text.withReturns front).length ≤ place)
          (high : place < (Text.withReturns (front ++ [char])).length) :
          (spans.map (Span.withReturns whole)).any (·.contains place) =
            spans.any (·.contains front.length) := by
        rw [List.any_map]
        congr 1
        funext span
        have split : whole = front ++ char :: (text ++ back) := by simp [wholeEq]
        exact span.contains_withReturns split low high
      rw [List.length_append, List.length_singleton] at later
      rw [Text.withReturns_append, List.length_append] at later grows covered
      by_cases feed : char = '\n'
      · subst feed
        have size : (Text.withReturns ['\n']).length = 2 := rfl
        rw [size] at later covered
        have first := @covered (Text.withReturns front).length (by omega) (by omega)
        have second := @covered ((Text.withReturns front).length + 1) (by omega) (by omega)
        rw [Text.withReturns_feed, markText, markText, markText, first, second, List.map_cons,
          Piece.paint_cons, Piece.paint_cons, Piece.paint_cons, Nat.add_assoc, later]
        split <;> rfl
      · have single : Text.withReturns [char] = [char] := Text.withReturns_cons feed []
        rw [single, List.length_singleton] at later covered
        have here := @covered (Text.withReturns front).length (by omega) (by omega)
        rw [Text.withReturns_cons feed, markText, markText, here, List.map_cons,
          Piece.paint_cons, Piece.paint_cons, later]
        split <;> simp [Region.display, Region.outside, Piece.withReturns, single]

theorem masked_cons (region : Region) (regions : List Region) :
    masked (region :: regions) = masked [region] ++ masked regions := by
  simp [masked]

theorem length_masked (region : Region) : (masked [region]).length = region.text.length := by
  simp only [masked, List.flatMap_cons, List.flatMap_nil, List.append_nil]
  split <;> simp

theorem paint_markFrom_withReturns {whole front : List Char} {regions : List Region}
    (spans : List Span) (wholeEq : whole = front ++ masked regions) :
    Piece.paint (markFrom (spans.map (Span.withReturns whole)) (Text.withReturns front).length
        (regions.map Piece.withReturns)) =
      Piece.paint ((markFrom spans front.length regions).map Piece.withReturns) := by
  induction regions generalizing front with
  | nil => rfl
  | cons region regions ih =>
      rw [masked_cons, ← List.append_assoc] at wholeEq
      have later := ih wholeEq
      have length : (Text.withReturns (masked [region])).length =
          (Text.withReturns region.text).length := by
        rw [← masked_withReturns]
        exact length_masked region.withReturns
      rw [Text.withReturns_append, List.length_append, List.length_append, length,
        length_masked] at later
      rw [List.map_cons, markFrom, markFrom, List.map_append, Piece.paint_append,
        Piece.paint_append, Piece.text_withReturns, later]
      congr 1
      have same : region.withReturns.isOutside = region.isOutside := rfl
      rw [same]
      split
      next free =>
        have own : masked [region] = region.text := by simp [masked, free]
        rw [own] at wholeEq
        exact paint_markText_withReturns spans wholeEq
      next => rfl

theorem not_mem_masked {regions : List Region} (free : '\r' ∉ Piece.join regions) :
    '\r' ∉ masked regions := by
  intro member
  obtain ⟨region, inRegions, inside⟩ := List.mem_flatMap.mp member
  refine free (List.mem_flatMap.mpr ⟨region, inRegions, ?_⟩)
  split at inside
  · exact inside
  · obtain ⟨char, inText, same⟩ := List.mem_map.mp inside
    split at same
    · exact same ▸ inText
    · exact absurd same (by decide)

theorem split_withReturns {regions : List Region} (free : '\r' ∉ Piece.join regions) :
    split (regions.map Piece.withReturns) = (split regions).map Piece.withReturns := by
  have lines := Text.lines_withReturns (not_mem_masked free)
  have all := Text.flatten_lines (masked regions)
  have found : spans (masked (regions.map Piece.withReturns)) =
      (spans (masked regions)).map (Span.withReturns (masked regions)) := by
    rw [masked_withReturns, spans, spans, lines]
    have bare : '\r' ∉ (Text.lines (masked regions)).flatten := by
      rw [all]
      exact not_mem_masked free
    exact @spansFrom_withReturns _ [] _ all.symm bare
  unfold split
  dsimp only
  rw [found, List.isEmpty_map]
  split
  next => rfl
  next =>
    apply Piece.fuse_eq_of_paint
    exact @paint_markFrom_withReturns _ [] _ _ rfl

end DisplayMath

namespace Fence

theorem ticks_withReturns (line : List Char) :
    ticks (Text.withReturns line) =
      ((ticks line).1, Text.withReturns (ticks line).2) := by
  have size {mark : Char} (other : mark ≠ '\n') (text : List Char) :
      Text.withReturns (text.takeWhile (· == mark)) = text.takeWhile (· == mark) := by
    apply Text.withReturns_of_free
    intro member
    have same := List.mem_takeWhile_imp member
    exact other (beq_iff_eq.mp same).symm
  unfold ticks
  dsimp only
  rw [Text.lineBody_withReturns, Text.dropWhile_withReturns (by decide),
    Text.takeWhile_withReturns (by decide), Text.dropWhile_withReturns (by decide),
    size (by decide)]
  have spaces : Text.withReturns ((Text.lineBody line).takeWhile (· == ' ')) =
      (Text.lineBody line).takeWhile (· == ' ') := size (by decide) _
  have whole := List.takeWhile_append_dropWhile (p := (· == ' ')) (l := Text.lineBody line)
  generalize (Text.lineBody line).takeWhile _ = front at spaces whole
  generalize (Text.lineBody line).dropWhile _ = marks at whole ⊢
  have indent : (Text.withReturns (Text.lineBody line)).length - (Text.withReturns marks).length =
      (Text.lineBody line).length - marks.length := by
    rw [← whole, Text.withReturns_append, spaces, List.length_append, List.length_append]
    omega
  rw [indent]
  split <;> rfl

theorem opens?_withReturns (line : List Char) : opens? (Text.withReturns line) = opens? line := by
  unfold opens?
  rw [ticks_withReturns]
  dsimp only
  rw [Text.contains_withReturns (by decide)]

theorem closes_withReturns (width : Nat) (line : List Char) :
    closes width (Text.withReturns line) = closes width line := by
  unfold closes
  rw [ticks_withReturns]
  dsimp only
  rw [Text.all_withReturns (by decide)]

theorem block?_withReturns (line : List Char) (rest : List (List Char)) :
    Text.block? closer? (Text.withReturns line) (rest.map Text.withReturns) =
      (Text.block? closer? line rest).map fun parts => (parts.1.map Text.withReturns,
        Text.withReturns parts.2.1, parts.2.2.map Text.withReturns) := by
  refine Text.block?_map (fun line => ?_) fun line closes closer other => ?_
  · rw [closer?, closer?, opens?_withReturns]
  · obtain ⟨width, _, rfl⟩ := Option.map_eq_some_iff.mp closer
    exact closes_withReturns width other

theorem cut_withReturns (lines : List (List Char)) :
    cut (lines.map Text.withReturns) = (cut lines).map Piece.withReturns := by
  fun_induction cut lines with
  | case1 => rw [List.map_nil, cut]; rfl
  | case2 line rest inside last after found ih =>
      have same := block?_withReturns line rest
      rw [found] at same
      rw [List.map_cons, cut]
      split
      next inside' last' after' found' =>
        rw [same] at found'
        obtain ⟨rfl, rfl, rfl⟩ : inside.map Text.withReturns = inside' ∧
            Text.withReturns last = last' ∧ after.map Text.withReturns = after' := by
          simpa using found'
        simp [ih, Piece.withReturns]
      next unfound => simp [same] at unfound
  | case3 line rest noBlock ih =>
      have same := block?_withReturns line rest
      rw [noBlock] at same
      rw [List.map_cons, cut]
      split
      next found => simp [same] at found
      next => simp [ih, Piece.withReturns]

theorem split_withReturns {text : List Char} (free : '\r' ∉ text) :
    split (Text.withReturns text) = (split text).map Piece.withReturns := by
  rw [split_eq_fuse, Text.lines_withReturns free, cut_withReturns, Piece.fuse_withReturns,
    split_eq_fuse]

end Fence

namespace Document

theorem run_withReturns (cut : Cut) {regions : List Region} (free : '\r' ∉ Piece.join regions) :
    cut.run (regions.map Piece.withReturns) = (cut.run regions).map Piece.withReturns := by
  cases cut with
  | code => exact InlineCode.split_withReturns free
  | links => exact Link.freeze_withReturns free
  | display => exact DisplayMath.split_withReturns free
  | inline => exact InlineMath.split_withReturns free

theorem not_mem_run (cut : Cut) {regions : List Region} (free : '\r' ∉ Piece.join regions) :
    '\r' ∉ Piece.join (cut.run regions) := by
  rwa [← Painted.text_paint, (keepsFrozen_run cut regions).text_eq, Painted.text_paint]

theorem proseRegions_withReturns {text : List Char} (free : '\r' ∉ text) :
    proseRegions (Text.withReturns text) = (proseRegions text).map Piece.withReturns := by
  unfold proseRegions
  rw [Text.strip_withReturns, Link.isBlob_withReturns]
  split
  next => rfl
  next =>
    have start : '\r' ∉ Piece.join [Region.outside text] := by simpa [Region.outside] using free
    have codes := not_mem_run .code start
    have links := not_mem_run .links codes
    have displays := not_mem_run .display links
    calc Cut.inline.run (Cut.display.run (Cut.links.run (Cut.code.run
          ([Region.outside text].map Piece.withReturns))))
        = Cut.inline.run (Cut.display.run (Cut.links.run
            ((Cut.code.run [Region.outside text]).map Piece.withReturns))) := by
          rw [run_withReturns .code start]
      _ = (Cut.inline.run (Cut.display.run (Cut.links.run
            (Cut.code.run [Region.outside text])))).map Piece.withReturns := by
          rw [run_withReturns .links codes, run_withReturns .display links,
            run_withReturns .inline displays]

theorem segmentRegions_withReturns {segment : Segment} (free : '\r' ∉ segment.text) :
    segmentRegions segment.withReturns = (segmentRegions segment).map Piece.withReturns := by
  obtain ⟨kind, text⟩ := segment
  cases kind with
  | code => rfl
  | prose => exact proseRegions_withReturns free

theorem regions_withReturns {text : List Char} (free : '\r' ∉ text) :
    regions (Text.withReturns text) = (regions text).map Piece.withReturns := by
  have spelled := Fence.join_split text
  rw [regions, Fence.split_withReturns free, regions, ← Piece.fuse_withReturns]
  congr 1
  have bare : ∀ segment ∈ Fence.split text, '\r' ∉ segment.text := by
    intro segment member inside
    rw [← spelled] at free
    exact free (List.mem_flatMap.mpr ⟨segment, member, inside⟩)
  generalize Fence.split text = segments at bare
  induction segments with
  | nil => rfl
  | cons segment segments ih =>
      rw [List.map_cons, List.flatMap_cons, List.flatMap_cons, List.map_append,
        segmentRegions_withReturns (bare segment (by simp)),
        ih fun other member => bare other (by simp [member])]

end Document

end DollarMath
