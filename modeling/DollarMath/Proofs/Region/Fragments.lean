import DollarMath.Proofs.Lists
import DollarMath.Proofs.Region.Passes
import DollarMath.Region.Line
import Mathlib.Data.List.Flatten

/-!
The view of a document as physical lines of fragments: where a fragment lies in its region and in
the document, and what stands around a line.
-/

namespace DollarMath

namespace Text

theorem physicalLines_ne_nil {text line : List Char} (member : line ∈ physicalLines text) :
    line ≠ [] := by
  induction text generalizing line with
  | nil => simp [physicalLines] at member
  | cons char rest ih =>
      rw [physicalLines] at member
      split at member
      · rcases List.mem_cons.mp member with rfl | later
        · simp
        · exact ih later
      · unfold consLine at member
        split at member
        · simp_all
        · rename_i first others linesEq
          rcases List.mem_cons.mp member with rfl | later
          · simp
          · exact ih (by simp [linesEq, later])

theorem physicalLines_shape {text line : List Char} {front back : List (List Char)}
    (split : physicalLines text = front ++ line :: back) :
    (∃ body, line = body ++ ['\n'] ∧ '\n' ∉ body) ∨ ('\n' ∉ line ∧ back = []) := by
  induction text generalizing line front back with
  | nil => simp [physicalLines] at split
  | cons char rest ih =>
      rw [physicalLines] at split
      split at split
      next feed =>
        subst feed
        cases front with
        | nil =>
            simp only [List.nil_append, List.cons.injEq] at split
            exact .inl ⟨[], by simp [← split.1], by simp⟩
        | cons other front =>
            simp only [List.cons_append, List.cons.injEq] at split
            exact ih split.2
      next noFeed =>
        unfold consLine at split
        split at split
        next =>
          rcases List.singleton_eq_append_iff.mp split with ⟨rfl, same⟩ | ⟨_, same⟩
          · simp only [List.cons.injEq] at same
            obtain ⟨rfl, rfl⟩ := same
            exact .inr ⟨by simpa using Ne.symm noFeed, rfl⟩
          · simp at same
        next first others linesEq =>
          cases front with
          | nil =>
              simp only [List.nil_append, List.cons.injEq] at split
              obtain ⟨rfl, rfl⟩ := split
              rcases @ih first [] others linesEq with ⟨body, rfl, noneBelow⟩ | ⟨noneBelow, rfl⟩
              · exact .inl ⟨char :: body, rfl, by simp [noneBelow, Ne.symm noFeed]⟩
              · exact .inr ⟨by simp [noneBelow, Ne.symm noFeed], rfl⟩
          | cons other front =>
              simp only [List.cons_append, List.cons.injEq] at split
              obtain ⟨rfl, rfl⟩ := split
              exact @ih line (first :: front) back linesEq

end Text

namespace Fragment

theorem flatMap_text_ofLines (index offset : Nat) (kind : RegionKind) (lines : List (List Char)) :
    (ofLines index kind offset lines).flatMap text = lines.flatten := by
  induction lines generalizing offset with
  | nil => rfl
  | cons line lines ih => simp [ofLines, ih]

theorem ofLines_split {index offset : Nat} {kind : RegionKind} {lines : List (List Char)}
    {front back : List Fragment} {fragment : Fragment}
    (split : ofLines index kind offset lines = front ++ fragment :: back) :
    ∃ before after, lines = before ++ fragment.text :: after ∧
      fragment.index = index ∧ fragment.kind = kind ∧
      fragment.span = ⟨offset + before.flatten.length,
        offset + before.flatten.length + fragment.text.length⟩ ∧
      front.flatMap text = before.flatten ∧ back.flatMap text = after.flatten := by
  induction lines generalizing offset front with
  | nil => simp [ofLines] at split
  | cons line lines ih =>
      rw [ofLines] at split
      cases front with
      | nil =>
          simp only [List.nil_append, List.cons.injEq] at split
          obtain ⟨rfl, rfl⟩ := split
          exact ⟨[], lines, by simp, rfl, rfl, by simp, rfl, flatMap_text_ofLines _ _ _ _⟩
      | cons other front =>
          simp only [List.cons_append, List.cons.injEq] at split
          obtain ⟨rfl, rest⟩ := split
          obtain ⟨before, after, rfl, indexEq, kindEq, spanEq, frontEq, backEq⟩ := ih rest
          refine ⟨line :: before, after, by simp, indexEq, kindEq, ?_, ?_, backEq⟩
          · simp [spanEq, Nat.add_assoc]
          · simp [frontEq]

theorem flatMap_text_ofRegion (index : Nat) (region : Region) :
    (ofRegion index region).flatMap text = region.text := by
  rw [ofRegion, flatMap_text_ofLines, Text.flatten_physicalLines]

@[simp] theorem flatMap_text_ofRegions (index : Nat) (regions : List Region) :
    (ofRegions index regions).flatMap text = Piece.join regions := by
  induction regions generalizing index with
  | nil => rfl
  | cons region regions ih =>
      rw [ofRegions, List.flatMap_append, flatMap_text_ofRegion, ih, Piece.join_cons]

structure LiesIn (front : List Fragment) (fragment : Fragment) (back : List Fragment)
    (before : List Region) (left : List Char) (region : Region) (right : List Char)
    (after : List Region) : Prop where
  kindEq : fragment.kind = region.kind
  textEq : region.text = left ++ fragment.text ++ right
  spanEq : fragment.span = ⟨left.length, left.length + fragment.text.length⟩
  nonempty : fragment.text ≠ []
  frontEq : front.flatMap text = Piece.join before ++ left
  backEq : back.flatMap text = right ++ Piece.join after

theorem text_ne_nil_of_ofRegion {index : Nat} {region : Region} {fragment : Fragment}
    (member : fragment ∈ ofRegion index region) : fragment.text ≠ [] := by
  obtain ⟨front, back, split⟩ := List.append_of_mem member
  obtain ⟨above, below, linesEq, _⟩ := ofLines_split split
  refine @Text.physicalLines_ne_nil region.text _ ?_
  rw [linesEq]
  simp

theorem ofRegions_split {index : Nat} {regions : List Region} {front back : List Fragment}
    {fragment : Fragment} (split : ofRegions index regions = front ++ fragment :: back) :
    ∃ before left region right after, regions = before ++ region :: after ∧
      fragment.index = index + before.length ∧
      LiesIn front fragment back before left region right after := by
  induction regions generalizing index front with
  | nil => simp [ofRegions] at split
  | cons region regions ih =>
      rw [ofRegions] at split
      rcases append_eq_append_cons split with ⟨rest, own, rfl⟩ | ⟨rest, rfl, later⟩
      · have nonempty := @text_ne_nil_of_ofRegion index region fragment (by simp [own])
        obtain ⟨above, below, linesEq, indexEq, kindEq, spanEq, frontEq, restEq⟩ :=
          ofLines_split own
        have textEq := congrArg List.flatten linesEq
        rw [Text.flatten_physicalLines, List.flatten_append, List.flatten_cons] at textEq
        refine ⟨[], above.flatten, region, below.flatten, regions, rfl, by simpa using indexEq,
          kindEq, by simpa using textEq, by simpa using spanEq, nonempty,
          by simpa using frontEq, ?_⟩
        simp [restEq]
      · obtain ⟨before, left, owner, right, after, rfl, indexEq, placed⟩ := ih later
        refine ⟨region :: before, left, owner, right, after, rfl, ?_, placed.kindEq, placed.textEq,
          placed.spanEq, placed.nonempty, ?_, placed.backEq⟩
        · rw [indexEq, List.length_cons]
          omega
        · rw [List.flatMap_append, flatMap_text_ofRegion, placed.frontEq, Piece.join_cons,
            List.append_assoc]

theorem ofRegions_goesOn {index : Nat} {regions : List Region} {front back : List Fragment}
    {first : Fragment} (split : ofRegions index regions = front ++ first :: back)
    (goesOn : first.endsLine = false) :
    ∃ before region after, regions = before ++ region :: after ∧ first.kind = region.kind ∧
      back = ofRegions (first.index + 1) after := by
  induction regions generalizing index front with
  | nil => simp [ofRegions] at split
  | cons region regions ih =>
      rw [ofRegions] at split
      rcases append_eq_append_cons split with ⟨rest, own, later⟩ | ⟨rest, rfl, later⟩
      · obtain ⟨above, below, linesEq, indexEq, kindEq, _, _, restEq⟩ := ofLines_split own
        refine ⟨[], region, regions, rfl, kindEq, ?_⟩
        rw [later, indexEq]
        cases rest with
        | nil => rfl
        | cons other rest =>
            have otherFilled := @text_ne_nil_of_ofRegion index region other (by simp [own])
            rcases Text.physicalLines_shape linesEq with ⟨body, bodyEq, _⟩ | ⟨_, rfl⟩
            · simp [endsLine, bodyEq] at goesOn
            · simp [otherFilled] at restEq
      · obtain ⟨before, owner, after, rfl, kindEq, backEq⟩ := ih later
        exact ⟨region :: before, owner, after, rfl, kindEq, backEq⟩

theorem index_lt_of_next {index : Nat} {regions : List Region} {front back : List Fragment}
    {first second : Fragment} (split : ofRegions index regions = front ++ first :: second :: back)
    (goesOn : first.endsLine = false) : first.index < second.index := by
  obtain ⟨_, _, _, _, _, backEq⟩ := ofRegions_goesOn split goesOn
  obtain ⟨_, _, _, _, _, _, indexEq, _⟩ := @ofRegions_split _ _ [] _ _ backEq.symm
  omega

/-- Where a line goes on from one fragment to the next, a region ends, so the kind changes. -/
theorem kind_ne_of_next {index : Nat} {regions : List Region} (fused : Piece.IsFused regions)
    {front back : List Fragment} {first second : Fragment}
    (split : ofRegions index regions = front ++ first :: second :: back)
    (goesOn : first.endsLine = false) : first.kind ≠ second.kind := by
  obtain ⟨before, region, after, rfl, kindEq, backEq⟩ := ofRegions_goesOn split goesOn
  cases after with
  | nil => simp [ofRegions] at backEq
  | cons next after =>
      rw [ofRegions] at backEq
      rcases @append_eq_append_cons _ _ _ [] _ _ backEq.symm with
        ⟨others, nextOwn, _⟩ | ⟨others, bothNil, _⟩
      · obtain ⟨_, _, _, _, nextKind, _⟩ := @ofLines_split _ _ _ _ [] _ _ nextOwn
        rw [kindEq, nextKind]
        exact fused.kind_ne
      · have empty := flatMap_text_ofRegion (first.index + 1) next
        rw [(List.append_eq_nil_iff.mp bothNil.symm).1] at empty
        exact absurd empty.symm (fused.nonempty next (by simp))

end Fragment

namespace Line

theorem flatMap_fragments_consFragment (fragment : Fragment) (lines : List Line) :
    (consFragment fragment lines).flatMap fragments = fragment :: lines.flatMap fragments := by
  cases lines <;> simp [consFragment]

@[simp] theorem flatMap_fragments_group (all : List Fragment) :
    (group all).flatMap fragments = all := by
  induction all with
  | nil => rfl
  | cons fragment rest ih =>
      rw [group]
      split
      · simp [ih]
      · rw [flatMap_fragments_consFragment, ih]

/-- What a line of grouped fragments looks like: it is not empty, only its last fragment can end a
line, and it does if another line follows. -/
structure IsCut (line : Line) (back : List Line) : Prop where
  nonempty : line.fragments ≠ []
  goesOn : ∀ front fragment rest, line.fragments = front ++ fragment :: rest → rest ≠ [] →
    fragment.endsLine = false
  ends : back ≠ [] → ∃ front fragment, line.fragments = front ++ [fragment] ∧
    fragment.endsLine = true

theorem group_split {all : List Fragment} {front back : List Line} {line : Line}
    (split : group all = front ++ line :: back) : IsCut line back := by
  induction all generalizing front line with
  | nil => simp [group] at split
  | cons fragment rest ih =>
      rw [group] at split
      split at split
      next last =>
        cases front with
        | nil =>
            simp only [List.nil_append, List.cons.injEq] at split
            obtain ⟨rfl, rfl⟩ := split
            refine ⟨by simp, ?_, fun _ => ⟨[], fragment, rfl, last⟩⟩
            intro front other rest whole notNil
            exact absurd (nil_of_singleton_eq whole) notNil
        | cons other front =>
            simp only [List.cons_append, List.cons.injEq] at split
            exact ih split.2
      next notLast =>
        have goesOnHere : fragment.endsLine = false := by simpa using notLast
        cases grouped : group rest with
        | nil =>
            rw [grouped, consFragment] at split
            rcases List.singleton_eq_append_iff.mp split with ⟨rfl, same⟩ | ⟨_, same⟩
            · simp only [List.cons.injEq] at same
              obtain ⟨rfl, rfl⟩ := same
              refine ⟨by simp, ?_, by simp⟩
              intro front other rest whole notNil
              exact absurd (nil_of_singleton_eq whole) notNil
            · simp at same
        | cons next lines =>
            rw [grouped, consFragment] at split
            cases front with
            | nil =>
                simp only [List.nil_append, List.cons.injEq] at split
                obtain ⟨rfl, rfl⟩ := split
                have later : IsCut next lines := @ih [] next grouped
                refine ⟨by simp, ?_, ?_⟩
                · intro front other rest whole notNil
                  cases front with
                  | nil =>
                      simp only [List.nil_append, List.cons.injEq] at whole
                      exact whole.1 ▸ goesOnHere
                  | cons head front =>
                      simp only [List.cons_append, List.cons.injEq] at whole
                      exact later.goesOn front other rest whole.2 notNil
                · intro notNil
                  obtain ⟨front, last, whole, ended⟩ := later.ends notNil
                  exact ⟨fragment :: front, last, by simp [whole], ended⟩
            | cons head front =>
                simp only [List.cons_append, List.cons.injEq] at split
                exact @ih (next :: front) line (by rw [grouped, split.2]; rfl)

theorem soleFragment?_eq_some {kind : RegionKind} {line : Line} {fragment : Fragment} :
    line.soleFragment? kind = some fragment ↔
      line.fragments = [fragment] ∧ fragment.kind = kind := by
  unfold soleFragment?
  split
  next only fragmentsEq =>
    by_cases free : only.kind = kind
    · rw [if_pos free, fragmentsEq, Option.some.injEq, List.singleton_inj]
      exact ⟨fun same => ⟨same, same ▸ free⟩, And.left⟩
    · rw [if_neg free, fragmentsEq, List.singleton_inj]
      exact ⟨by simp, fun ⟨same, isKind⟩ => absurd (same ▸ isKind) free⟩
  next several =>
    exact ⟨by simp, fun ⟨fragmentsEq, _⟩ => absurd fragmentsEq (several fragment)⟩

structure LiesIn (regions : List Region) (front : List Line) (line : Line) (back : List Line) :
    Prop where
  cut : IsCut line back
  fragmentsEq : Fragment.ofRegions 0 regions =
    front.flatMap fragments ++ (line.fragments ++ back.flatMap fragments)
  starts : Text.lastOr none ((front.flatMap fragments).flatMap Fragment.text) = none ∨
    Text.lastOr none ((front.flatMap fragments).flatMap Fragment.text) = some '\n'

theorem ofRegions_split {regions : List Region} {front back : List Line} {line : Line}
    (split : ofRegions regions = front ++ line :: back) : LiesIn regions front line back := by
  refine ⟨group_split split, ?_, ?_⟩
  · have all := flatMap_fragments_group (Fragment.ofRegions 0 regions)
    rw [show group (Fragment.ofRegions 0 regions) = _ from split] at all
    simpa using all.symm
  · rcases List.eq_nil_or_concat front with rfl | ⟨above, last, rfl⟩
    · exact .inl rfl
    · rw [List.concat_eq_append, List.append_assoc] at split
      obtain ⟨others, fragment, fragmentsEq, ended⟩ := (group_split split).ends (by simp)
      have feed : fragment.text.getLast? = some '\n' := by simpa [Fragment.endsLine] using ended
      obtain ⟨body, bodyEq⟩ := List.getLast?_eq_some_iff.mp feed
      right
      simp [fragmentsEq, bodyEq]

end Line

theorem Span.AreOrdered.sublist {length : Nat} {fewer all : List Span}
    (ordered : AreOrdered length all) (sub : fewer.Sublist all) : AreOrdered length fewer :=
  ⟨fun span member => ordered.inside span (sub.subset member), ordered.apart.sublist sub⟩

inductive Span.Tiles : (start stop : Nat) → List Span → Prop
  | nil {offset} : Tiles offset offset []
  | cons {start middle stop spans} : start < middle → Tiles middle stop spans →
      Tiles start stop (⟨start, middle⟩ :: spans)

theorem Span.Tiles.areOrdered {start stop : Nat} {spans : List Span}
    (tiles : Tiles start stop spans) :
    AreOrdered stop spans ∧ (∀ span ∈ spans, start ≤ span.start) ∧ start ≤ stop := by
  induction tiles with
  | nil => exact ⟨⟨by simp, .nil⟩, by simp, Nat.le_refl _⟩
  | @cons start middle stop spans filled _ ih =>
      obtain ⟨ordered, starts, bound⟩ := ih
      refine ⟨.cons ⟨filled, bound⟩ starts ordered, fun span member => ?_, by omega⟩
      rcases List.mem_cons.mp member with rfl | later
      · exact Nat.le_refl _
      · have := starts span later
        omega

namespace Fragment

theorem tiles_ofLines {lines : List (List Char)} (filled : ∀ line ∈ lines, line ≠ [])
    (index offset : Nat) (kind : RegionKind) :
    Span.Tiles offset (offset + lines.flatten.length)
      ((ofLines index kind offset lines).map span) := by
  induction lines generalizing offset with
  | nil => exact .nil
  | cons line lines ih =>
      obtain ⟨own, others⟩ := List.forall_mem_cons.mp filled
      have size := List.length_pos_iff.mpr own
      have later := ih others (offset + line.length)
      rw [Nat.add_assoc, ← List.length_append, ← List.flatten_cons] at later
      exact .cons (by omega) later

theorem tiles_ofRegion (index : Nat) (region : Region) :
    Span.Tiles 0 region.text.length ((ofRegion index region).map span) := by
  have tiles := @tiles_ofLines (Text.physicalLines region.text)
    (fun _ => Text.physicalLines_ne_nil) index 0 region.kind
  rwa [Text.flatten_physicalLines, Nat.zero_add] at tiles

theorem index_ofLines {index offset : Nat} {kind : RegionKind} {lines : List (List Char)}
    {fragment : Fragment} (member : fragment ∈ ofLines index kind offset lines) :
    fragment.index = index := by
  obtain ⟨front, back, split⟩ := List.append_of_mem member
  obtain ⟨_, _, _, indexEq, _⟩ := ofLines_split split
  exact indexEq

theorem filter_ofRegions {index : Nat} {front : List Region} {region : Region}
    {back : List Region} :
    (ofRegions index (front ++ region :: back)).filter (·.index == index + front.length) =
      ofRegion (index + front.length) region := by
  induction front generalizing index with
  | nil =>
      have own : (ofRegion index region).filter (·.index == index) = ofRegion index region := by
        rw [List.filter_eq_self]
        intro fragment member
        simp [index_ofLines member]
      have others : (ofRegions (index + 1) back).filter (·.index == index) = [] := by
        rw [List.filter_eq_nil_iff]
        intro fragment member
        obtain ⟨left, right, split⟩ := List.append_of_mem member
        obtain ⟨before, _, _, _, _, _, indexEq, _⟩ := ofRegions_split split
        simp only [indexEq, beq_iff_eq]
        omega
      simp [ofRegions, List.filter_append, own, others]
  | cons first front ih =>
      have others :
          (ofRegion index first).filter (·.index == index + (first :: front).length) = [] := by
        rw [List.filter_eq_nil_iff]
        intro fragment member
        simp [index_ofLines member]
      have place : index + (first :: front).length = index + 1 + front.length := by
        rw [List.length_cons]
        omega
      rw [List.cons_append, ofRegions, List.filter_append, others, List.nil_append, place, ih]

theorem filter_ofRegions_of_getElem? {regions : List Region} {index : Nat} {region : Region}
    (found : regions[index]? = some region) :
    (ofRegions 0 regions).filter (·.index == index) = ofRegion index region := by
  obtain ⟨bound, rfl⟩ := List.getElem?_eq_some_iff.mp found
  have own := @filter_ofRegions 0 (regions.take index) regions[index] (regions.drop (index + 1))
  rwa [List.getElem_cons_drop, List.take_append_drop, List.length_take, Nat.min_eq_left bound.le,
    Nat.zero_add] at own

end Fragment

theorem getElem?_strayDollars {regions : List Region} {index : Nat}
    (bound : index < regions.length) : (strayDollars regions)[index]? =
      some (((strayFragments regions).filter (·.index == index)).map Fragment.span) := by
  simp [strayDollars, bound]

/-- What is held back in a region are some of its fragments. -/
theorem strayDollars_sublist {regions : List Region} {pair : Region × List Span}
    (member : pair ∈ regions.zip (strayDollars regions)) :
    ∃ index, pair.2.Sublist ((Fragment.ofRegion index pair.1).map Fragment.span) := by
  obtain ⟨index, place⟩ := List.mem_iff_getElem?.mp member
  obtain ⟨found, held⟩ := List.getElem?_zip_eq_some.mp place
  rw [getElem?_strayDollars (List.getElem?_eq_some_iff.mp found).1, Option.some.injEq] at held
  have strays : (strayFragments regions).Sublist (Fragment.ofRegions 0 regions) := by
    have kept : ((Line.ofRegions regions).filter Line.hasStrayDollar).Sublist
        (Line.ofRegions regions) := List.filter_sublist
    have loose := List.Sublist.flatMap_right ((Line.ofRegions regions).filter Line.hasStrayDollar)
      fun (line : Line) _ =>
        (List.filter_sublist : line.looseFragments.Sublist line.fragments)
    have whole := loose.trans (kept.flatMap Line.fragments)
    rwa [Line.ofRegions, Line.flatMap_fragments_group] at whole
  have own := (strays.filter (·.index == index)).map Fragment.span
  rw [held, Fragment.filter_ofRegions_of_getElem? found] at own
  exact ⟨index, own⟩

theorem ordered_strayDollars (regions : List Region) :
    ∀ pair ∈ regions.zip (strayDollars regions), Span.AreOrdered pair.1.text.length pair.2 := by
  intro pair member
  obtain ⟨index, sub⟩ := strayDollars_sublist member
  exact (Fragment.tiles_ofRegion index pair.1).areOrdered.1.sublist sub

end DollarMath
