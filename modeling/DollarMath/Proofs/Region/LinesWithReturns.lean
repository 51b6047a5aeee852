import DollarMath.Proofs.Region.Fragments
import DollarMath.Proofs.Region.WithReturns

/-!
The physical lines of regions with returns, and edits of such regions: everything lies where the
returns put before it move it.
-/

namespace DollarMath

def Fragment.withReturns (texts : Nat → List Char) (fragment : Fragment) : Fragment :=
  ⟨fragment.index, fragment.span.withReturns (texts fragment.index), fragment.kind,
    Text.withReturns fragment.text⟩

namespace Fragment

theorem ofLines_withReturns {texts : Nat → List Char} {index : Nat} (kind : RegionKind)
    {front : List Char} {lines : List (List Char)} (textEq : texts index = front ++ lines.flatten) :
    ofLines index kind (Text.withReturns front).length (lines.map Text.withReturns) =
      (ofLines index kind front.length lines).map (withReturns texts) := by
  induction lines generalizing front with
  | nil => rfl
  | cons line lines ih =>
      rw [List.flatten_cons, ← List.append_assoc] at textEq
      have later := ih textEq
      have start : Text.shift (texts index) front.length = (Text.withReturns front).length := by
        rw [textEq, List.append_assoc, Text.shift_length]
      have stop : Text.shift (texts index) (front ++ line).length =
          (Text.withReturns (front ++ line)).length := by
        rw [textEq, Text.shift_length]
      rw [Text.withReturns_append, List.length_append, List.length_append] at later stop
      rw [List.map_cons, ofLines, ofLines, List.map_cons, later, withReturns, Span.withReturns]
      dsimp only
      rw [start, stop]

theorem ofRegions_withReturns {texts : Nat → List Char} {index : Nat} {regions : List Region}
    (textEq : ∀ place region, regions[place]? = some region → texts (index + place) = region.text) :
    ofRegions index (regions.map Piece.withReturns) =
      (ofRegions index regions).map (withReturns texts) := by
  induction regions generalizing index with
  | nil => rfl
  | cons region regions ih =>
      have own : texts index = region.text := textEq 0 region rfl
      have later : ofRegions (index + 1) (regions.map Piece.withReturns) =
          (ofRegions (index + 1) regions).map (withReturns texts) := by
        apply ih
        intro place other found
        rw [Nat.add_assoc, Nat.add_comm 1]
        exact textEq (place + 1) other found
      have all := Text.flatten_physicalLines region.text
      rw [List.map_cons, ofRegions, ofRegions, List.map_append, later]
      congr 1
      rw [ofRegion, ofRegion, Piece.text_withReturns, Text.physicalLines_withReturns]
      exact @ofLines_withReturns texts index region.kind [] _ (by rw [all]; exact own)

theorem endsLine_withReturns (texts : Nat → List Char) (fragment : Fragment) :
    (fragment.withReturns texts).endsLine = fragment.endsLine := by
  rw [endsLine, endsLine, withReturns, Text.getLast?_withReturns]

theorem isVisible_withReturns (texts : Nat → List Char) (fragment : Fragment) :
    (fragment.withReturns texts).isVisible = fragment.isVisible := by
  rw [isVisible, isVisible, withReturns, Text.allBlank_withReturns]

end Fragment

namespace Line

def withReturns (texts : Nat → List Char) (line : Line) : Line :=
  ⟨line.fragments.map (Fragment.withReturns texts)⟩

theorem group_withReturns (texts : Nat → List Char) (fragments : List Fragment) :
    group (fragments.map (Fragment.withReturns texts)) =
      (group fragments).map (withReturns texts) := by
  induction fragments with
  | nil => rfl
  | cons fragment rest ih =>
      rw [List.map_cons, group, group, Fragment.endsLine_withReturns, ih]
      split
      · rfl
      · cases group rest <;> rfl

theorem ofRegions_withReturns {texts : Nat → List Char} {regions : List Region}
    (textEq : ∀ place region, regions[place]? = some region → texts place = region.text) :
    ofRegions (regions.map Piece.withReturns) = (ofRegions regions).map (withReturns texts) := by
  have fragments : Fragment.ofRegions 0 (regions.map Piece.withReturns) =
      (Fragment.ofRegions 0 regions).map (Fragment.withReturns texts) := by
    apply Fragment.ofRegions_withReturns
    intro place region found
    rw [Nat.zero_add]
    exact textEq place region found
  rw [ofRegions, fragments, group_withReturns, ofRegions]

variable (texts : Nat → List Char) (line : Line)

@[simp] theorem text_withReturns :
    (line.withReturns texts).text = Text.withReturns line.text := by
  rw [text, text, withReturns]
  induction line.fragments with
  | nil => rfl
  | cons fragment rest ih =>
      rw [List.map_cons, List.flatMap_cons, List.flatMap_cons, Text.withReturns_append, ih]
      rfl

theorem content_withReturns :
    (line.withReturns texts).content = Text.withReturns line.content := by
  rw [content, text_withReturns, Text.lineBody_withReturns, content]

theorem isBlank_withReturns : (line.withReturns texts).isBlank = line.isBlank := by
  rw [isBlank, text_withReturns, Text.allBlank_withReturns, isBlank]

theorem isOutside_withReturns : (line.withReturns texts).isOutside = line.isOutside := by
  rw [isOutside, withReturns, List.all_map, isOutside]
  rfl

theorem firstVisible?_withReturns : (line.withReturns texts).firstVisible? =
    line.firstVisible?.map (Fragment.withReturns texts) := by
  rw [firstVisible?, withReturns, List.find?_map, firstVisible?]
  congr 2
  funext fragment
  exact fragment.isVisible_withReturns texts

theorem lastVisible?_withReturns : (line.withReturns texts).lastVisible? =
    line.lastVisible?.map (Fragment.withReturns texts) := by
  rw [lastVisible?, withReturns, ← List.map_reverse, List.find?_map, lastVisible?]
  congr 2
  funext fragment
  exact fragment.isVisible_withReturns texts

end Line

namespace Text

theorem take_shift (text : List Char) (offset : Nat) :
    (withReturns text).take (shift text offset) = withReturns (text.take offset) := by
  have whole := congrArg withReturns (List.take_append_drop offset text)
  rw [withReturns_append] at whole
  rw [← whole, shift, List.take_left]

theorem drop_shift (text : List Char) (offset : Nat) :
    (withReturns text).drop (shift text offset) = withReturns (text.drop offset) := by
  have whole := congrArg withReturns (List.take_append_drop offset text)
  rw [withReturns_append] at whole
  rw [← whole, shift, List.drop_left]

theorem slice_shift (text : List Char) {start stop : Nat} (order : start ≤ stop) :
    Span.slice ⟨shift text start, shift text stop⟩ (withReturns text) =
      withReturns (Span.slice ⟨start, stop⟩ text) := by
  have same : shift text start = shift (text.take stop) start := by
    rw [shift, shift, List.take_take, Nat.min_eq_left order]
  rw [Span.slice, Span.slice, take_shift, same, drop_shift]

end Text

def Edit.withReturns (text : List Char) (edit : Edit) : Edit :=
  ⟨edit.span.withReturns text, edit.replacement.map Piece.withReturns⟩

def Edit.AreInside (text : List Char) (edits : List Edit) : Prop :=
  ∀ edit ∈ edits, edit.span.start ≤ text.length ∧ edit.span.stop ≤ text.length

namespace Edit

theorem cut_withReturns {text : List Char} {edits : List Edit} (inside : AreInside text edits)
    {offset : Nat} (bound : offset ≤ text.length) :
    cut (Text.withReturns text) (Text.shift text offset) (edits.map (withReturns text)) =
      (cut text offset edits).map Piece.withReturns := by
  induction edits generalizing offset with
  | nil =>
      rw [List.map_nil, cut, cut, Text.drop_shift]
      rfl
  | cons edit edits ih =>
      have others : AreInside text edits := fun other member => inside other (by simp [member])
      have start : (withReturns text edit).span.start = Text.shift text edit.span.start := rfl
      have stop : (withReturns text edit).span.stop = Text.shift text edit.span.stop := rfl
      rw [List.map_cons, cut, cut, start, stop, ih others bound]
      by_cases late : edit.span.start < offset
      · rw [if_pos late, if_pos (Text.shift_lt late bound)]
      · have order := Text.shift_mono text (Nat.le_of_not_lt late)
        rw [if_neg late, if_neg (Nat.not_lt.mpr order), ih others (inside edit (by simp)).2,
          Text.slice_shift text (Nat.le_of_not_lt late), List.map_cons, List.map_append]
        rfl

theorem splice_withReturns {text : List Char} {edits : List Edit} (inside : AreInside text edits) :
    splice (Text.withReturns text) (edits.map (withReturns text)) =
      (splice text edits).map Piece.withReturns := by
  have order : sorted (edits.map (withReturns text)) = (sorted edits).map (withReturns text) := by
    refine (List.map_mergeSort fun first isFirst second isSecond => ?_).symm
    rw [decide_eq_decide]
    constructor
    · exact fun before => Text.shift_mono text before
    · intro before
      by_contra after
      have less := Text.shift_lt (Nat.lt_of_not_le after) (inside first isFirst).1
      exact absurd before (Nat.not_le.mpr less)
  have all : AreInside text (sorted edits) :=
    fun edit member => inside edit (List.mem_mergeSort.mp member)
  have cuts := cut_withReturns all (Nat.zero_le _)
  rw [splice, order, splice]
  exact cuts

end Edit

def Edit.placed (texts : Nat → List Char) (edit : Nat × Edit) : Nat × Edit :=
  (edit.1, edit.2.withReturns (texts edit.1))

namespace EditTable

def withReturns (texts : Nat → List Char) (table : EditTable) : EditTable :=
  table.map fun entry => (entry.1, entry.2.map (Edit.withReturns (texts entry.1)))

theorem ofList_withReturns (texts : Nat → List Char) (edits : List (Nat × Edit)) :
    ofList (edits.map (Edit.placed texts)) = (ofList edits).withReturns texts := by
  have keys : (edits.map (Edit.placed texts)).map Prod.fst = edits.map Prod.fst := by
    rw [List.map_map]
    rfl
  rw [ofList, keys, ofList, withReturns, List.map_map]
  refine List.map_congr_left fun index _ => ?_
  rw [Function.comp_apply, List.filter_map, List.map_map, List.map_map]
  congr 1
  refine List.map_congr_left fun edit member => ?_
  have same := (List.mem_filter.mp member).2
  rw [Function.comp_apply, beq_iff_eq] at same
  rw [Function.comp_apply, Function.comp_apply, ← same]
  rfl

theorem find?_withReturns (texts : Nat → List Char) (table : EditTable) (index : Nat) :
    find? (table.withReturns texts) index =
      (table.find? index).map (List.map (Edit.withReturns (texts index))) := by
  rw [find?, withReturns, ← List.map_reverse, List.find?_map, find?, Option.map_map,
    Option.map_map]
  have test : ((·.1 == index) : Nat × List Edit → Bool) ∘
      (fun entry : Nat × List Edit =>
        (entry.1, entry.2.map (Edit.withReturns (texts entry.1)))) = (·.1 == index) := rfl
  rw [test]
  cases found : table.reverse.find? (·.1 == index) with
  | none => rfl
  | some entry =>
      have same := List.find?_some found
      rw [beq_iff_eq] at same
      subst same
      rfl

theorem applyFrom_withReturns {texts : Nat → List Char} {table : EditTable} {index : Nat}
    {regions : List Region}
    (textEq : ∀ place region, regions[place]? = some region → texts (index + place) = region.text)
    (inside : ∀ place region edits, regions[place]? = some region →
      table.find? (index + place) = some edits → Edit.AreInside region.text edits) :
    applyFrom (table.withReturns texts) index (regions.map Piece.withReturns) =
      (applyFrom table index regions).map Piece.withReturns := by
  induction regions generalizing index with
  | nil => rfl
  | cons region regions ih =>
      have own : texts index = region.text := textEq 0 region rfl
      have later : applyFrom (table.withReturns texts) (index + 1)
          (regions.map Piece.withReturns) =
          (applyFrom table (index + 1) regions).map Piece.withReturns := by
        apply ih
        · intro place other found
          rw [Nat.add_assoc, Nat.add_comm 1]
          exact textEq (place + 1) other found
        · intro place other edits found listed
          rw [Nat.add_assoc, Nat.add_comm 1] at listed
          exact inside (place + 1) other edits found listed
      rw [List.map_cons, applyFrom, applyFrom, List.map_append, later, find?_withReturns]
      congr 1
      cases found : table.find? index with
      | none => rfl
      | some edits =>
          rw [Option.map_some, own]
          exact Edit.splice_withReturns (inside 0 region edits rfl found)

theorem apply_withReturns {texts : Nat → List Char} {edits : List (Nat × Edit)}
    {regions : List Region}
    (textEq : ∀ place region, regions[place]? = some region → texts place = region.text)
    (inside : ∀ place region edit, regions[place]? = some region → (place, edit) ∈ edits →
      edit.span.start ≤ region.text.length ∧ edit.span.stop ≤ region.text.length) :
    (ofList (edits.map (Edit.placed texts))).apply (regions.map Piece.withReturns) =
      ((ofList edits).apply regions).map Piece.withReturns := by
  rw [ofList_withReturns, apply, apply, withReturns, List.isEmpty_map, ← withReturns]
  split
  · rfl
  · rw [← Piece.fuse_withReturns]
    congr 1
    apply applyFrom_withReturns
    · intro place region found
      rw [Nat.zero_add]
      exact textEq place region found
    · intro place region own found listed edit member
      rw [Nat.zero_add] at listed
      exact inside place region edit found ((find?_ofList listed).2 edit member)

end EditTable

end DollarMath
