import DollarMath.Proofs.Conversion.FencedBlocks
import DollarMath.Proofs.Conversion.Stretches

/-!
No stage parts a carriage return from its line feed.
-/

namespace DollarMath

structure Text.Paired (text : List Char) : Prop where
  followed : text.IsChain fun first second => first = '\r' → second = '\n'
  ended : text.getLast? ≠ some '\r'

namespace Text.Paired

variable {text first second : List Char}

theorem of_free (free : '\r' ∉ text) : Paired text := by
  constructor
  · induction text with
    | nil => exact .nil
    | cons char text ih =>
        refine List.isChain_cons.mpr ⟨?_, ih fun member => free (by simp [member])⟩
        rintro next _ rfl
        exact absurd (by simp) free
  · intro last
    exact free (List.mem_of_getLast? last)

theorem append (left : Paired first) (right : Paired second) : Paired (first ++ second) := by
  constructor
  · refine List.isChain_append.mpr ⟨left.followed, right.followed, ?_⟩
    rintro last isLast next _ rfl
    exact absurd isLast left.ended
  · by_cases empty : second = []
    · rw [empty, List.append_nil]
      exact left.ended
    · rw [List.getLast?_append_of_ne_nil _ empty]
      exact right.ended

theorem of_append (paired : Paired (first ++ second)) : Paired second := by
  refine ⟨(List.isChain_append.mp paired.followed).2.1, ?_⟩
  by_cases empty : second = []
  · simp [empty]
  · have ended := paired.ended
    rwa [List.getLast?_append_of_ne_nil _ empty] at ended

theorem of_isInfix {part : List Char}
    (followed : text.IsChain fun first second => first = '\r' → second = '\n')
    (inText : part <:+: text) (ended : part.getLast? ≠ some '\r') : Paired part where
  followed := List.IsChain.infix followed inText
  ended := ended

theorem toList {before : Option Char} (other : before ≠ some '\r') : Paired before.toList := by
  refine of_free fun member => other ?_
  simpa using member

theorem cons_return {rest : List Char} (paired : Paired ('\n' :: rest)) :
    Paired ('\r' :: '\n' :: rest) := by
  refine ⟨List.isChain_cons_cons.mpr ⟨fun _ => rfl, paired.followed⟩, ?_⟩
  rw [List.getLast?_cons_cons]
  exact paired.ended

theorem head_eq {char : Char} {rest : List Char} (paired : Paired ('\r' :: char :: rest)) :
    char = '\n' :=
  (List.isChain_cons_cons.mp paired.followed).1 rfl

theorem of_isLineEnd {newline : List Char} (lineEnd : IsLineEnd newline) : Paired newline := by
  rcases lineEnd with rfl | rfl
  · exact of_free (by decide)
  · exact ⟨by simp, by decide⟩

theorem strip {inside : List Char}
    (followed : inside.IsChain fun first second => first = '\r' → second = '\n') :
    Paired (strip inside) := by
  refine of_isInfix followed (strip_isInfix inside) fun last => ?_
  exact absurd (not_isBlank_getLast_strip last) (by decide)

theorem dollars {body : List Char} (paired : Paired body) :
    Paired (Piece.join [Region.dollars body]) := by
  have marks : Paired ['$'] := of_free (by decide)
  have whole := (marks.append paired).append marks
  simpa [Region.dollars] using whole

theorem displayBlock {newline indent body : List Char} (lineEnd : IsLineEnd newline)
    (indented : ∀ char ∈ indent, isIndent char = true) (paired : Paired body)
    (previous next : Option Char) :
    Paired (Piece.join (DollarMath.displayBlock newline indent body previous next)) := by
  have newlines : Paired newline := of_isLineEnd lineEnd
  have edge {part : List Char} (isEdge : part = [] ∨ part = newline) : Paired part := by
    rcases isEdge with rfl | rfl
    · exact of_free (by simp)
    · exact newlines
  have indents : Paired indent := by
    refine of_free fun member => ?_
    exact absurd (indented _ member) (by decide)
  have marks : Paired ['$', '$'] := of_free (by decide)
  obtain ⟨above, below, isAbove, isBelow, whole⟩ :=
    join_displayBlock newline indent body previous next
  rw [whole]
  have opening := ((((edge isAbove).append indents).append marks).append newlines).append indents
  have closing := ((newlines.append indents).append marks).append (edge isBelow)
  exact (opening.append paired).append closing

end Text.Paired

namespace Stage.Replaces

variable {stage : Stage} {before after : Option Char} {text : List Char} {regions : List Region}

theorem paired (replaced : stage.Replaces before text regions after)
    (followed : text.IsChain fun first second => first = '\r' → second = '\n') :
    Text.Paired (Piece.join regions) := by
  have solid {body : List Char} (inText : body <:+: text) (isSolid : IsSolid body) :
      Text.Paired body := by
    refine .of_isInfix followed inText fun last => ?_
    obtain ⟨char, charEq, notBlank⟩ := isSolid.last
    rw [charEq, Option.some.injEq] at last
    rw [last] at notBlank
    exact absurd notBlank (by decide)
  have inner {inside : List Char} (inText : inside <:+: text) :
      Text.Paired (Text.strip inside) := by
    have part := List.IsChain.infix followed inText
    exact .strip part
  cases replaced with
  | squares lineEnd _ =>
      exact .displayBlock lineEnd (by simp) (inner ⟨_, _, rfl⟩) _ _
  | @squareLines _ left lead inside trail right _ _ lineEnd _ _ _ _ =>
      have inText : inside <:+: left ++ '[' :: lead ++ inside ++ trail ++ ']' :: right :=
        ⟨left ++ '[' :: lead, trail ++ ']' :: right, by simp⟩
      exact .displayBlock lineEnd (by simp) (inner inText) _ _
  | parens _ => exact .dollars (inner ⟨_, _, rfl⟩)
  | padded _ _ => exact .dollars (inner ⟨['$'], _, rfl⟩)
  | environment lineEnd command indented =>
      exact .displayBlock lineEnd indented
        (solid (List.suffix_append _ _).isInfix command.isSolid) _ _
  | @hangingEnvironment newline indent body _ _ lineEnd command _ indented =>
      have indents : Text.Paired indent := by
        refine .of_free fun member => ?_
        exact absurd (indented _ member) (by decide)
      have bare : ∀ char ∈ ([] : List Char), Text.isIndent char = true := by simp
      have block := Text.Paired.displayBlock lineEnd bare
        (solid (List.suffix_append _ _).isInfix command.isSolid) indent.getLast? after
      exact indents.append block
  | @formula newline _ _ _ lineEnd _ _ _ _ =>
      have newlines := Text.Paired.of_isLineEnd lineEnd
      have marks : Text.Paired ['$', '$'] := .of_free (by decide)
      have body : Text.Paired (Text.stripRight text) := by
        refine .of_isInfix followed (Text.stripRight_isPrefix text).isInfix fun last => ?_
        exact absurd (Text.not_isBlank_getLast_stripRight last) (by decide)
      have whole := (((marks.append newlines).append body).append newlines).append marks
      simpa [Region.display] using whole
  | squareSpan _ => exact .dollars (inner ⟨['['], _, rfl⟩)
  | parenSpan _ => exact .dollars (inner ⟨['('], _, rfl⟩)
  | @degree digit others sign _ _ _ signs =>
      obtain ⟨number, _, between⟩ := List.isChain_append.mp followed
      have ended : (digit :: others).getLast? ≠ some '\r' := by
        intro last
        rcases signs with rfl | rfl
        · exact absurd (between _ last '^' rfl rfl) (by decide)
        · exact absurd (between _ last '^' rfl rfl) (by decide)
      have whole : Text.Paired (digit :: others) := ⟨number, ended⟩
      exact .dollars (whole.append (.of_free (by decide)))
  | token token => exact .dollars (solid List.infix_rfl token.isSolid)
  | blankLine _ _ _ => exact .of_free (by simp)

end Stage.Replaces

theorem Revised.paired {stage : Stage} {before before' : Option Char} {old new : Painted}
    (revised : Revised stage.Replaces none before old new)
    (paired : Text.Paired (before.toList ++ old.text))
    (same : before' = some '\r' → before = some '\r') :
    Text.Paired (before'.toList ++ new.text) := by
  induction revised generalizing before' with
  | nil =>
      rw [Painted.text_nil, List.append_nil] at paired ⊢
      refine .toList fun isReturn => ?_
      rw [same isReturn] at paired
      exact paired.ended rfl
  | @keep before char kind old new _ ih =>
      have later : Text.Paired (char :: new.text) := ih paired.of_append id
      by_cases isReturn : before' = some '\r'
      · rw [same isReturn] at paired
        rw [isReturn]
        obtain rfl := paired.head_eq
        exact later.cons_return
      · exact (Text.Paired.toList isReturn).append later
  | @replace before text regions old new filled replaced _ ih =>
      rw [Painted.text_append, Painted.text_outside] at paired
      have inWhole : text <:+: before.toList ++ (text ++ old.text) :=
        ⟨_, _, List.append_assoc _ _ _⟩
      have followed := List.IsChain.infix paired.followed inWhole
      have own : Text.Paired (Piece.join regions) := replaced.paired followed
      have inLine : before' ≠ some '\r' := by
        intro isReturn
        obtain ⟨first, rest, rfl⟩ := List.exists_cons_of_ne_nil filled
        rw [same isReturn] at paired
        have atStart := replaced.starts rfl (by rw [paired.head_eq]; decide)
        rw [same isReturn] at atStart
        rcases atStart with absent | feed
        · simp at absent
        · simp at feed
      have ended : Text.lastOr before' (Piece.join regions) ≠ some '\r' := by
        by_cases empty : Piece.join regions = []
        · rwa [empty]
        · rw [Text.lastOr_of_ne_nil empty]
          exact own.ended
      have rest : Text.Paired ((Text.lastOr before text).toList ++ old.text) := by
        obtain ⟨init, last, rfl⟩ := (List.eq_nil_or_concat' text).resolve_left filled
        have cut : before.toList ++ (init ++ [last] ++ old.text) =
            (before.toList ++ init) ++ (last :: old.text) := by simp
        rw [cut] at paired
        simpa using paired.of_append
      have later := ih rest fun isReturn => absurd isReturn ended
      rw [Painted.text_append, Painted.text_paint]
      exact (Text.Paired.toList inLine).append (own.append later.of_append)

theorem paired_convert (options : Options) {text : List Char} (paired : Text.Paired text) :
    Text.Paired (convert options text) := by
  rw [convert, ← Painted.text_paint]
  refine preserved_convertedRegions (motive := fun painted => Text.Paired painted.text) ?_ ?_
  · intro stage _ old new revised paired
    have both : Text.Paired ((none : Option Char).toList ++ new.text) :=
      revised.paired paired (by simp)
    exact both
  · rwa [Painted.text_paint, Document.join_regions]

end DollarMath
