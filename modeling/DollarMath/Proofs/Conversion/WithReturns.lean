import DollarMath.Proofs.Conversion.LineEnds
import DollarMath.Proofs.Document.WithReturns
import DollarMath.Proofs.Region.LinesWithReturns

/-!
A document with a carriage return before every line feed is converted to what the document without
is converted to, with carriage returns. Only brackets on lines of their own tell the two apart: the
closing bracket is not read before a carriage return.
-/

namespace DollarMath

theorem displayBlock_withReturns {indent : List Char} (onLine : '\n' ∉ indent) (body : List Char)
    (previous next : Option Char) :
    displayBlock ['\r', '\n'] indent (Text.withReturns body) previous (next.map Text.asReturn) =
      (displayBlock ['\n'] indent body previous next).map Piece.withReturns := by
  have indents : Text.withReturns indent = indent := Text.withReturns_of_free onLine
  have marks : Text.withReturns ['$', '$'] = ['$', '$'] := rfl
  have feed : Text.withReturns ['\n'] = ['\r', '\n'] := rfl
  unfold displayBlock
  dsimp only
  rw [Text.any_asReturn (by decide), List.map_append, List.map_cons]
  congr 1
  · split <;> rfl
  · congr 1
    · simp only [Piece.withReturns, Region.display, Text.withReturns_append, indents, marks, feed]
    · split <;> rfl

namespace Text

theorem lined_withReturns {text : List Char} (free : '\r' ∉ text) :
    Lined ['\r', '\n'] (withReturns text) := by
  induction text with
  | nil => exact .nil
  | cons char text ih =>
      have later := ih fun member => free (by simp [member])
      by_cases feed : char = '\n'
      · subst feed
        exact .feed later
      · rw [withReturns_cons feed]
        refine .keep ?_ later
        have notReturn : char ≠ '\r' := by
          rintro rfl
          exact free (by simp)
        simp [isReturn, feed, notReturn]

theorem lineEnding_withReturns {text : List Char} (free : '\r' ∉ text) (feed : '\n' ∈ text) :
    lineEnding (withReturns text) = ['\r', '\n'] :=
  (lined_withReturns free).lineEnding_eq (.inr rfl)
    (.inr ((mem_withReturns (by decide)).mpr feed))

theorem lineEnding_of_noReturn {text : List Char} (free : '\r' ∉ text) :
    lineEnding text = ['\n'] :=
  (Lined.of_free free).lineEnding_eq (.inl rfl) (.inl rfl)

end Text

namespace Delimiters

section Builds

variable (asked : List Char → List Char → Option Char → Prop)

theorem carries_toDisplay :
    (toDisplay ['\n']).Carries (toDisplay ['\r', '\n']) Text.withReturns asked := by
  intro before taken inside _ after _
  unfold toDisplay
  dsimp only
  rw [Text.strip_withReturns, Text.isEmpty_withReturns, displayBlock_withReturns (by simp)]
  split <;> rfl

theorem carries_toDisplayAtLine :
    (toDisplayAtLine ['\n']).Carries (toDisplayAtLine ['\r', '\n']) Text.withReturns asked := by
  intro before taken inside next after meets
  unfold toDisplayAtLine
  rw [carries_toDisplay asked before taken inside next after meets]
  split <;> rfl

theorem carries_toInline : toInline.Carries toInline Text.withReturns asked := by
  intro before taken inside _ after _
  unfold toInline
  dsimp only
  rw [Text.strip_withReturns, Text.isEmpty_withReturns]
  split
  next => rfl
  next => simp [Region.dollars, Piece.withReturns, Text.withReturns_cons]

end Builds

theorem escapedSquares_cons (before : Option Char) (rest : List Char) :
    escapedSquares before ('\\' :: '[' :: rest) =
      if before == some '[' || before == some '\\' then none
      else (Text.splitAtFirst? ['\\', ']'] rest).map fun parts => (parts.1.length + 4, parts.1) :=
  rfl

theorem length_between {opening closing : Char} (bare : opening ≠ '\n' ∧ closing ≠ '\n')
    (body left : List Char) :
    (Text.withReturns (('\\' :: opening :: (body ++ ['\\', closing] ++ left)).take
      (body.length + 4))).length = (Text.withReturns body).length + 4 := by
  have cut : '\\' :: opening :: (body ++ ['\\', closing] ++ left) =
      ('\\' :: opening :: (body ++ ['\\', closing])) ++ left := rfl
  rw [cut, List.take_left' (by simp)]
  simp [Text.withReturns_cons, bare]

theorem keeps_escapedSquares :
    escapedSquares.Keeps Text.withReturns fun _ _ _ => True := by
  refine .of_word ['\\', '['] (by decide) (by decide) ?_ ?_
    (substitutes_escapedSquares (.inl rfl)).takes
  · intro before text other
    unfold escapedSquares
    split
    next rest => exact absurd rfl (other rest)
    next => rfl
  · intro before rest free
    simp only [List.cons_append, List.nil_append]
    rw [escapedSquares_cons, escapedSquares_cons,
      Text.splitAtFirst?_withReturns (by decide) (by decide) free]
    split
    next => rfl
    next =>
      cases split : Text.splitAtFirst? ['\\', ']'] rest with
      | none => rfl
      | some parts =>
          obtain ⟨body, left⟩ := parts
          rw [Text.splitAtFirst?_eq_some split]
          simp only [Option.map_some, Prod.map_apply]
          rw [length_between (by decide)]

theorem escapedParens_cons (before : Option Char) (rest : List Char) :
    escapedParens before ('\\' :: '(' :: rest) =
      if before == some '\\' then none
      else
        (Text.splitAtFirst? ['\\', ')'] rest).bind fun parts =>
          if parts.1.contains '\n' then none else some (parts.1.length + 4, parts.1) := by
  rw [escapedParens]
  split
  next => rfl
  next => cases Text.splitAtFirst? ['\\', ')'] rest <;> rfl

theorem keeps_escapedParens :
    escapedParens.Keeps Text.withReturns fun _ _ _ => True := by
  refine .of_word ['\\', '('] (by decide) (by decide) ?_ ?_ substitutes_escapedParens.takes
  · intro before text other
    unfold escapedParens
    split
    next rest => exact absurd rfl (other rest)
    next => rfl
  · intro before rest free
    simp only [List.cons_append, List.nil_append]
    rw [escapedParens_cons, escapedParens_cons,
      Text.splitAtFirst?_withReturns (by decide) (by decide) free]
    split
    next => rfl
    next =>
      cases split : Text.splitAtFirst? ['\\', ')'] rest with
      | none => rfl
      | some parts =>
          obtain ⟨body, left⟩ := parts
          have feeds : (Text.withReturns body).contains '\n' = body.contains '\n' :=
            Text.contains_withReturns (by decide) body
          rw [Text.splitAtFirst?_eq_some split]
          simp only [Option.map_some, Option.bind_some, Prod.map_apply, feeds]
          split
          next => rfl
          next => rw [Option.map_some, length_between (by decide)]

def isPadded (inside : List Char) (next : Option Char) : Bool :=
  inside.head? == some ' ' && inside.getLast? == some ' ' && 3 ≤ inside.length &&
    !next.any fun char => char == '$' || Text.isDecimal char

theorem paddedDollars_eq : paddedDollars = betweenDollars isPadded id := rfl

theorem keeps_paddedDollars :
    paddedDollars.Keeps Text.withReturns fun _ _ _ => True := by
  have takes := substitutes_paddedDollars.takes
  rw [paddedDollars_eq] at takes ⊢
  refine keeps_betweenDollars takes ?_ fun _ same => same
  intro inside next
  rw [isPadded, Text.any_asReturn (by decide)]
  rfl

theorem afterLineBreak?_of_ne {char : Char} (notReturn : char ≠ '\r') (notFeed : char ≠ '\n')
    (rest : List Char) : afterLineBreak? (char :: rest) = none := by
  unfold afterLineBreak?
  split
  next same => exact absurd (List.cons.inj same).1 notReturn
  next same => exact absurd (List.cons.inj same).1 notFeed
  next => rfl

theorem afterLineBreak?_withReturns {text : List Char} (free : '\r' ∉ text) :
    afterLineBreak? (Text.withReturns text) = (afterLineBreak? text).map Text.withReturns := by
  cases text with
  | nil => rfl
  | cons char rest =>
      by_cases feed : char = '\n'
      · subst feed
        rfl
      · have notReturn : char ≠ '\r' := by
          rintro rfl
          exact free (by simp)
        rw [Text.withReturns_cons feed, afterLineBreak?_of_ne notReturn feed,
          afterLineBreak?_of_ne notReturn feed]
        rfl

def afterOpeningLine? (text : List Char) : Option (List Char) :=
  match text.dropWhile Text.isIndent with
  | '[' :: rest => afterLineBreak? (rest.dropWhile Text.isIndent)
  | _ => none

def afterClosing? (line : List Char) : Option (List Char) :=
  match line.dropWhile Text.isIndent with
  | ']' :: rest =>
    if (rest.dropWhile Text.isIndent).isEmpty ||
        (rest.dropWhile Text.isIndent).head? == some '\n' then
      some (rest.dropWhile Text.isIndent)
    else none
  | _ => none

theorem afterOpeningLine?_of_bracket {text rest : List Char}
    (bracket : text.dropWhile Text.isIndent = '[' :: rest) :
    afterOpeningLine? text = afterLineBreak? (rest.dropWhile Text.isIndent) := by
  simp only [afterOpeningLine?, bracket]

theorem afterOpeningLine?_of_ne {text : List Char}
    (other : ∀ rest, text.dropWhile Text.isIndent ≠ '[' :: rest) :
    afterOpeningLine? text = none := by
  unfold afterOpeningLine?
  split
  next rest same => exact absurd same (other rest)
  next => rfl

theorem bracketLines_eq (before : Option Char) (text : List Char) :
    bracketLines before text =
      if before.any (· != '\n') then none
      else
        (afterOpeningLine? text).bind fun body =>
          (Text.splitWhere? afterClosingLine? body).map fun parts =>
            (text.length - parts.2.length, parts.1) := by
  unfold bracketLines
  split
  next => rfl
  next =>
    split
    next rest bracket =>
      rw [afterOpeningLine?_of_bracket bracket]
      cases afterLineBreak? (rest.dropWhile Text.isIndent) <;> rfl
    next other =>
      rw [afterOpeningLine?_of_ne other]
      rfl

theorem not_mem_dropWhile {char : Char} {text : List Char} (free : char ∉ text)
    (test : Char → Bool) : char ∉ text.dropWhile test :=
  fun member => free ((List.dropWhile_sublist _).subset member)

theorem afterOpeningLine?_withReturns {text : List Char} (free : '\r' ∉ text) :
    afterOpeningLine? (Text.withReturns text) =
      (afterOpeningLine? text).map Text.withReturns := by
  have tailFree := not_mem_dropWhile free Text.isIndent
  by_cases bracket : ∃ rest, text.dropWhile Text.isIndent = '[' :: rest
  · obtain ⟨rest, bracket⟩ := bracket
    have bracket' : (Text.withReturns text).dropWhile Text.isIndent =
        '[' :: Text.withReturns rest := by
      rw [Text.dropWhile_withReturns (by decide), bracket, Text.withReturns_cons (by decide)]
    have restFree : '\r' ∉ rest := fun member => tailFree (by simp [bracket, member])
    rw [afterOpeningLine?_of_bracket bracket, afterOpeningLine?_of_bracket bracket',
      Text.dropWhile_withReturns (by decide)]
    exact afterLineBreak?_withReturns (not_mem_dropWhile restFree _)
  · have other : ∀ rest, text.dropWhile Text.isIndent ≠ '[' :: rest :=
      fun rest same => bracket ⟨rest, same⟩
    rw [afterOpeningLine?_of_ne other, afterOpeningLine?_of_ne]
    · rfl
    · intro rest same
      rw [Text.dropWhile_withReturns (by decide)] at same
      obtain ⟨back, backEq, _⟩ := Text.withReturns_eq_cons (by decide) same
      exact other back backEq

theorem afterClosing?_of_bracket {line rest : List Char}
    (bracket : line.dropWhile Text.isIndent = ']' :: rest) :
    afterClosing? line =
      if (rest.dropWhile Text.isIndent).isEmpty ||
          (rest.dropWhile Text.isIndent).head? == some '\n' then
        some (rest.dropWhile Text.isIndent)
      else none := by
  simp only [afterClosing?, bracket]

theorem afterClosing?_of_ne {line : List Char}
    (other : ∀ rest, line.dropWhile Text.isIndent ≠ ']' :: rest) : afterClosing? line = none := by
  unfold afterClosing?
  split
  next rest same => exact absurd same (other rest)
  next => rfl

theorem afterClosingLine?_eq (text : List Char) :
    afterClosingLine? text = (afterLineBreak? text).bind afterClosing? := by
  cases broken : afterLineBreak? text with
  | none => simp [afterClosingLine?, broken]
  | some line =>
      rw [Option.bind_some]
      by_cases bracket : ∃ rest, line.dropWhile Text.isIndent = ']' :: rest
      · obtain ⟨rest, bracket⟩ := bracket
        rw [afterClosing?_of_bracket bracket]
        simp only [afterClosingLine?, broken, Option.map_some, bracket]
      · rw [afterClosing?_of_ne fun rest same => bracket ⟨rest, same⟩]
        unfold afterClosingLine?
        split
        next rest opened => exact absurd ⟨rest, by simpa [broken] using opened⟩ bracket
        next => rfl

theorem afterClosing?_missed {line : List Char} (missed : afterClosing? line = none) :
    afterClosing? (Text.withReturns line) = none := by
  by_cases bracket : ∃ rest, line.dropWhile Text.isIndent = ']' :: rest
  · obtain ⟨rest, bracket⟩ := bracket
    have bracket' : (Text.withReturns line).dropWhile Text.isIndent =
        ']' :: Text.withReturns rest := by
      rw [Text.dropWhile_withReturns (by decide), bracket, Text.withReturns_cons (by decide)]
    rw [afterClosing?_of_bracket bracket] at missed
    rw [afterClosing?_of_bracket bracket', Text.dropWhile_withReturns (by decide),
      Text.isEmpty_withReturns, Text.head?_withReturns]
    generalize rest.dropWhile Text.isIndent = after at missed
    cases after with
    | nil => simp at missed
    | cons char after =>
        have notFeed : char ≠ '\n' := by
          rintro rfl
          simp at missed
        simp [Text.asReturn, notFeed]
  · apply afterClosing?_of_ne
    intro rest same
    rw [Text.dropWhile_withReturns (by decide)] at same
    obtain ⟨back, backEq, _⟩ := Text.withReturns_eq_cons (by decide) same
    exact bracket ⟨back, backEq⟩

theorem afterClosing?_eq_some {line after : List Char} (found : afterClosing? line = some after) :
    ∃ rest, line.dropWhile Text.isIndent = ']' :: rest ∧ after = rest.dropWhile Text.isIndent ∧
      (after = [] ∨ after.head? = some '\n') := by
  unfold afterClosing? at found
  split at found
  next rest bracket =>
    split at found
    next ended =>
      obtain rfl := Option.some.inj found
      exact ⟨rest, bracket, rfl, by simpa using ended⟩
    next => simp at found
  next => simp at found

theorem afterClosing?_found {line : List Char} (found : afterClosing? line = some []) :
    afterClosing? (Text.withReturns line) = some [] := by
  obtain ⟨rest, bracket, restEq, _⟩ := afterClosing?_eq_some found
  have bracket' : (Text.withReturns line).dropWhile Text.isIndent =
      ']' :: Text.withReturns rest := by
    rw [Text.dropWhile_withReturns (by decide), bracket, Text.withReturns_cons (by decide)]
  rw [afterClosing?_of_bracket bracket', Text.dropWhile_withReturns (by decide), ← restEq]
  rfl

theorem reads_afterClosingLine? : Text.Reads (· = []) afterClosingLine? where
  missed text free missed := by
    rw [afterClosingLine?_eq] at missed ⊢
    rw [afterLineBreak?_withReturns free]
    cases broken : afterLineBreak? text with
    | none => rfl
    | some line =>
        rw [broken] at missed
        exact afterClosing?_missed missed
  found text rest free found ended := by
    subst ended
    rw [afterClosingLine?_eq] at found ⊢
    rw [afterLineBreak?_withReturns free]
    cases broken : afterLineBreak? text with
    | none => simp [broken] at found
    | some line =>
        rw [broken] at found
        exact afterClosing?_found found
  feed text _ missed := by
    rw [afterClosingLine?_eq] at missed ⊢
    exact afterClosing?_missed missed

theorem bracketLines_eq_some {before : Option Char} {text inside : List Char} {size : Nat}
    (found : bracketLines before text = some (size, inside)) :
    before.any (· != '\n') = false ∧ ∃ body back, afterOpeningLine? text = some body ∧
      Text.splitWhere? afterClosingLine? body = some (inside, back) ∧
      size = text.length - back.length := by
  rw [bracketLines_eq] at found
  split at found
  next => simp at found
  next atLine =>
    obtain ⟨body, opened, closed⟩ := Option.bind_eq_some_iff.mp found
    obtain ⟨⟨front, back⟩, split, same⟩ := Option.map_eq_some_iff.mp closed
    obtain ⟨rfl, rfl⟩ := Prod.mk.inj same
    exact ⟨by simpa using atLine, body, back, opened, split, rfl⟩

theorem afterOpeningLine?_suffix {text body : List Char}
    (opened : afterOpeningLine? text = some body) : body <:+ text := by
  unfold afterOpeningLine? at opened
  split at opened
  next rest bracket =>
    obtain ⟨newline, broken, _⟩ := afterLineBreak?_eq_some opened
    have inRest : body <:+ rest := by
      have ended : body <:+ rest.dropWhile Text.isIndent := broken ▸ List.suffix_append _ _
      exact ended.trans (List.dropWhile_suffix _)
    have inText : '[' :: rest <:+ text := bracket ▸ List.dropWhile_suffix _
    exact inRest.trans ((List.suffix_cons _ _).trans inText)
  next => simp at opened

/-- What follows a closing line is the end of the text or starts with a line feed. -/
theorem afterClosingLine?_ends {text rest : List Char}
    (found : afterClosingLine? text = some rest) :
    rest <:+ text ∧ (rest = [] ∨ rest.head? = some '\n') := by
  obtain ⟨trail, right, textEq, _⟩ := afterClosingLine?_eq_some found
  rw [afterClosingLine?_eq] at found
  obtain ⟨line, _, closed⟩ := Option.bind_eq_some_iff.mp found
  obtain ⟨_, _, _, ends⟩ := afterClosing?_eq_some closed
  exact ⟨textEq ▸ List.suffix_append _ _, ends⟩

theorem keeps_bracketLines :
    bracketLines.Keeps Text.withReturns fun _ _ next => next ≠ some '\n' where
  takes := (substitutes_bracketLines (.inl rfl)).takes
  returns before char rest ret := by
    simp only [Text.isReturn, Bool.or_eq_true, beq_iff_eq] at ret
    rw [bracketLines_eq, afterOpeningLine?_of_ne]
    · split <;> rfl
    · intro other same
      rcases ret with rfl | rfl <;> simp [Text.isIndent] at same
  missed before text free missed := by
    rw [bracketLines_eq] at missed ⊢
    split at missed
    next inLine => rw [if_pos inLine]
    next atLine =>
      rw [if_neg atLine, afterOpeningLine?_withReturns free]
      cases opened : afterOpeningLine? text with
      | none => rfl
      | some body =>
          rw [opened, Option.bind_some, Option.map_eq_none_iff] at missed
          have bodyFree : '\r' ∉ body :=
            fun member => free ((afterOpeningLine?_suffix opened).subset member)
          rw [Option.map_some, Option.bind_some,
            reads_afterClosingLine?.splitWhere?_missed bodyFree missed]
          rfl
  found before taken left inside free found next := by
    obtain ⟨atLine, body, back, opened, split, size⟩ := bracketLines_eq_some found
    have inText := afterOpeningLine?_suffix opened
    obtain ⟨tail, bodyEq, closed⟩ := Text.splitWhere?_eq_some split
    obtain ⟨inTail, ends⟩ := afterClosingLine?_ends closed
    have ended : back <:+ taken ++ left :=
      inTail.trans ((bodyEq ▸ List.suffix_append _ _ : tail <:+ body).trans inText)
    obtain ⟨front, whole⟩ := ended
    have lengths := congrArg List.length whole
    simp only [List.length_append] at lengths size
    have same : front = taken ∧ back = left := List.append_inj' whole (by omega)
    obtain ⟨rfl, rfl⟩ := same
    obtain rfl : back = [] := ends.resolve_right next
    have bodyFree : '\r' ∉ body := fun member => free (inText.subset member)
    rw [List.append_nil] at opened free ⊢
    rw [bracketLines_eq, if_neg (by simp [atLine]), afterOpeningLine?_withReturns free, opened,
      Option.map_some, Option.bind_some,
      reads_afterClosingLine?.splitWhere?_found bodyFree split rfl]
    rfl

end Delimiters

namespace Environments

theorem bare_names : ∀ name ∈ names, '\r' ∉ name ∧ '\n' ∉ name := by
  decide

theorem afterBegin?_withReturns {text : List Char} (free : '\r' ∉ text) :
    afterBegin? (Text.withReturns text) =
      (afterBegin? text).map (Prod.map id Text.withReturns) := by
  unfold afterBegin?
  rw [Text.afterWord?_withReturns (by decide) free]
  cases opened : Text.afterWord? ['\\', 'b', 'e', 'g', 'i', 'n', '{'] text with
  | none => rfl
  | some rest =>
      have restFree : '\r' ∉ rest := by
        rw [Text.afterWord?_eq_some opened] at free
        exact fun member => free (by simp [member])
      rw [Option.map_some, Option.bind_some, Option.bind_some]
      have bare := bare_names
      generalize names = others at bare
      induction others with
      | nil => rfl
      | cons name others ih =>
          have own := bare name (by simp)
          have closed : '\r' ∉ name ++ ['}'] ∧ '\n' ∉ name ++ ['}'] := by simp [own]
          rw [List.findSome?_cons, List.findSome?_cons,
            Text.afterWord?_withReturns closed restFree,
            ih fun other member => bare other (by simp [member])]
          cases Text.afterWord? (name ++ ['}']) rest <;> rfl

theorem afterBegin?_eq_some {text name rest : List Char}
    (begun : afterBegin? text = some (name, rest)) : name ∈ names ∧ rest <:+ text := by
  obtain ⟨opened, starts, named⟩ := Option.bind_eq_some_iff.mp begun
  obtain ⟨other, member, after⟩ := List.exists_of_findSome?_eq_some named
  obtain ⟨left, word, same⟩ := Option.map_eq_some_iff.mp after
  obtain ⟨rfl, rfl⟩ := Prod.mk.inj same
  rw [Text.afterWord?_eq_some starts, Text.afterWord?_eq_some word, ← List.append_assoc]
  exact ⟨member, List.suffix_append _ _⟩

theorem afterEnvironment?_withReturns {text : List Char} (free : '\r' ∉ text) :
    afterEnvironment? (Text.withReturns text) =
      (afterEnvironment? text).map Text.withReturns := by
  unfold afterEnvironment?
  rw [afterBegin?_withReturns free]
  cases begun : afterBegin? text with
  | none => rfl
  | some parts =>
      obtain ⟨name, rest⟩ := parts
      obtain ⟨member, ended⟩ := afterBegin?_eq_some begun
      have bare := bare_names name member
      have endBare : '\r' ∉ endOf name ∧ '\n' ∉ endOf name := by simp [endOf, bare]
      have restFree : '\r' ∉ rest := fun member => free (ended.subset member)
      rw [Option.map_some, Option.bind_some, Option.bind_some, Prod.map_apply, id,
        Text.splitAtFirst?_withReturns (by simp [endOf]) endBare restFree]
      cases Text.splitAtFirst? (endOf name) rest <;> rfl

def indentOf (before : Option Char) (text : List Char) : List Char :=
  if before.any (· != '\n') then [] else text.takeWhile Text.isIndent

theorem environment_eq (before : Option Char) (text : List Char) :
    environment before text =
      (afterEnvironment? (text.drop (indentOf before text).length)).map fun rest =>
        (text.length - rest.length, indentOf before text) :=
  rfl

theorem isIndent_indentOf {before : Option Char} {text : List Char} :
    ∀ char ∈ indentOf before text, Text.isIndent char = true := by
  intro char member
  unfold indentOf at member
  split at member
  · simp at member
  · exact List.mem_takeWhile_imp member

theorem onLine_of_isIndent {indent : List Char}
    (indented : ∀ char ∈ indent, Text.isIndent char = true) : '\n' ∉ indent :=
  fun member => absurd (indented _ member) (by decide)

theorem indentOf_append_drop (before : Option Char) (text : List Char) :
    indentOf before text ++ text.drop (indentOf before text).length = text := by
  unfold indentOf
  split
  · rfl
  · rw [Text.drop_takeWhile, List.takeWhile_append_dropWhile]

theorem indentOf_withReturns (before : Option Char) (text : List Char) :
    indentOf before (Text.withReturns text) = indentOf before text := by
  have onLine := onLine_of_isIndent (@isIndent_indentOf before text)
  unfold indentOf at onLine ⊢
  split
  next => rfl
  next inside =>
    rw [if_neg inside] at onLine
    rw [Text.takeWhile_withReturns (by decide), Text.withReturns_of_free onLine]

theorem keeps_environment : environment.Keeps id fun _ _ _ => True := by
  refine .of_same ?_ ?_ (substitutes_environment (.inl rfl)).takes
  · intro before char rest ret
    simp only [Text.isReturn, Bool.or_eq_true, beq_iff_eq] at ret
    have unindented : indentOf before (char :: rest) = [] := by
      unfold indentOf
      split
      · rfl
      · rcases ret with rfl | rfl <;> simp [Text.isIndent]
    rw [environment_eq, unindented]
    rcases ret with rfl | rfl <;> rfl
  · intro before text free
    have whole := indentOf_append_drop before text
    have onLine := onLine_of_isIndent (@isIndent_indentOf before text)
    rw [environment_eq, environment_eq, indentOf_withReturns]
    generalize indentOf before text = indent at whole onLine
    generalize text.drop indent.length = tail at whole
    subst whole
    rw [Text.withReturns_append, Text.withReturns_of_free onLine, List.drop_left,
      afterEnvironment?_withReturns fun member => free (by simp [member])]
    cases found : afterEnvironment? tail with
    | none => rfl
    | some rest =>
        obtain ⟨body, rfl, _⟩ := afterEnvironment?_eq_some found
        have size : (indent ++ (body ++ rest)).length - rest.length = (indent ++ body).length := by
          simp only [List.length_append]
          omega
        have size' : (indent ++ Text.withReturns (body ++ rest)).length -
            (Text.withReturns rest).length = (indent ++ Text.withReturns body).length := by
          simp only [Text.withReturns_append, List.length_append]
          omega
        simp only [Option.map_some, size, size']
        rw [← List.append_assoc, List.take_left, Text.withReturns_append,
          Text.withReturns_of_free onLine]
        rfl

def Indented (taken indent : List Char) : Prop :=
  '\n' ∉ indent ∧ ∃ body, taken = indent ++ body

theorem indented_of_environment {before : Option Char} {taken left indent : List Char}
    (found : environment before (taken ++ left) = some (taken.length, indent)) :
    Indented taken indent := by
  rw [environment_eq] at found
  have whole := indentOf_append_drop before (taken ++ left)
  have onLine := onLine_of_isIndent (@isIndent_indentOf before (taken ++ left))
  generalize indentOf before (taken ++ left) = other at found whole onLine
  obtain ⟨rest, after, same⟩ := Option.map_eq_some_iff.mp found
  obtain ⟨size, rfl⟩ := Prod.mk.inj same
  obtain ⟨body, bodyEq, _⟩ := afterEnvironment?_eq_some after
  rw [bodyEq, ← List.append_assoc] at whole
  have lengths := congrArg List.length whole
  simp only [List.length_append] at lengths size
  have parts : other ++ body = taken ∧ rest = left := by
    refine List.append_inj' whole ?_
    omega
  exact ⟨onLine, body, parts.1.symm⟩

theorem carries_toDisplay : (toDisplay ['\n']).Carries (toDisplay ['\r', '\n']) id
    fun taken indent _ => Indented taken indent := by
  rintro before taken indent _ after ⟨onLine, body, rfl⟩
  have indents := Text.withReturns_of_free onLine
  have block (other : List Char) (free : '\n' ∉ other) (previous : Option Char) :=
    displayBlock_withReturns free body previous after
  unfold toDisplay
  rw [Text.withReturns_append, indents, id, List.drop_left, List.drop_left]
  dsimp only
  split
  next =>
    rw [block [] (by simp), Option.map_some, List.map_cons]
    simp only [Region.outside, Piece.withReturns, indents]
  next =>
    rw [block indent onLine]
    rfl

end Environments

end DollarMath
