import DollarMath.Proofs.Conversion.Content
import DollarMath.Proofs.Lists

/-!
Stretches of text outside that lie on one line. No pass puts a new one together: what it puts in ends
the text before it, and what it drops stands on a line of its own.
-/

namespace DollarMath

structure Text.IsUnbroken (text : List Char) : Prop where
  onLine : '\n' ∉ text
  last : text.getLast? ≠ some '\r'

namespace Text.IsUnbroken

theorem of_noReturns {text : List Char} (free : ∀ char ∈ text, isReturn char = false) :
    IsUnbroken text := by
  refine ⟨fun feed => absurd (free _ feed) (by decide), fun last => ?_⟩
  exact absurd (free _ (List.mem_of_getLast? last)) (by decide)

theorem tail {char : Char} {text : List Char} (unbroken : IsUnbroken (char :: text)) :
    IsUnbroken text := by
  refine ⟨fun feed => unbroken.onLine (List.mem_cons_of_mem _ feed), fun last => ?_⟩
  refine unbroken.last ?_
  rw [List.getLast?_cons, last]
  rfl

end Text.IsUnbroken

def IsWall (stroke : Char × RegionKind) : Prop :=
  stroke.2 = .outside → Text.isReturn stroke.1 = true

theorem isWall_of_isFrozen {region : Region} (frozen : region.kind ≠ .outside) :
    ∀ stroke ∈ Piece.paint [region], IsWall stroke :=
  fun stroke member isOutside => absurd isOutside (Painted.frozen_paint frozen stroke member)

theorem IsWall.not_mem {stroke : Char × RegionKind} {text : List Char} (wall : IsWall stroke)
    (unbroken : ∀ char ∈ text, Text.isReturn char = false) : stroke ∉ Painted.outside text := by
  intro member
  obtain ⟨char, inText, rfl⟩ := List.mem_map.mp member
  have own := unbroken char inText
  rw [wall rfl] at own
  exact absurd own (by decide)

inductive Walls : Painted → Prop
  | nil : Walls []
  | frozen {char kind rest} : kind ≠ .outside → Walls rest → Walls ((char, kind) :: rest)
  | lineEnd {newline rest} : IsLineEnd newline → Walls rest →
      Walls (Painted.outside newline ++ rest)

namespace Walls

variable {walls second : Painted}

theorem of_frozen (isFrozen : ∀ stroke ∈ walls, stroke.2 ≠ .outside) : Walls walls := by
  induction walls with
  | nil => exact .nil
  | cons stroke walls ih =>
      exact .frozen (isFrozen stroke (by simp))
        (ih fun other member => isFrozen other (by simp [member]))

theorem append (first : Walls walls) (later : Walls second) : Walls (walls ++ second) := by
  induction first with
  | nil => exact later
  | frozen kept _ ih => exact .frozen kept ih
  | lineEnd isEnd _ ih =>
      rw [List.append_assoc]
      exact .lineEnd isEnd ih

theorem paint {regions : List Region}
    (each : ∀ region ∈ regions,
      region.kind ≠ .outside ∨ IsLineEnd region.text ∧ region.isOutside = true) :
    Walls (Piece.paint regions) := by
  induction regions with
  | nil => exact .nil
  | cons region regions ih =>
      rw [Piece.paint_eq_append]
      refine append ?_ (ih fun other member => each other (by simp [member]))
      rcases each region (by simp) with kept | ⟨isEnd, free⟩
      · exact of_frozen (Painted.frozen_paint kept)
      · rw [Painted.paint_of_isOutside free]
        simpa using lineEnd isEnd .nil

variable {front back : Painted} {text : List Char}

theorem feed_not_mem (unbroken : Text.IsUnbroken text) :
    ('\n', RegionKind.outside) ∉ Painted.outside text := by
  intro member
  obtain ⟨char, inText, same⟩ := List.mem_map.mp member
  exact unbroken.onLine ((Prod.mk.inj same).1 ▸ inText)

theorem frozen_not_mem {char : Char} {kind : RegionKind} (frozen : kind ≠ .outside)
    (text : List Char) : (char, kind) ∉ Painted.outside text := by
  intro member
  obtain ⟨other, _, same⟩ := List.mem_map.mp member
  exact frozen (Prod.mk.inj same).2.symm

theorem not_suffix_return (unbroken : Text.IsUnbroken text) {front : Painted} :
    Painted.outside text ≠ front ++ [('\r', .outside)] := by
  intro whole
  have last := congrArg List.getLast? whole
  rw [Painted.outside, List.getLast?_map, List.getLast?_concat] at last
  obtain ⟨char, final, same⟩ := Option.map_eq_some_iff.mp last
  exact unbroken.last ((Prod.mk.inj same).1 ▸ final)

theorem of_prefix (walled : Walls walls) (notNil : walls ≠ []) (unbroken : Text.IsUnbroken text)
    (found : Painted.outside text <+: front ++ (walls ++ back)) :
    Painted.outside text <+: front := by
  cases walled with
  | nil => exact absurd rfl notNil
  | frozen kept _ => exact prefix_of_wall found (frozen_not_mem kept text)
  | @lineEnd newline rest isEnd _ =>
      rcases isEnd with rfl | rfl
      · exact prefix_of_wall found (feed_not_mem unbroken)
      · have cut : Painted.outside text <+: (front ++ [('\r', .outside)]) ++
            ('\n', .outside) :: (rest ++ back) := by
          simpa using found
        rcases List.prefix_concat_iff.mp (prefix_of_wall cut (feed_not_mem unbroken)) with
          whole | inFront
        · exact absurd whole (not_suffix_return unbroken)
        · exact inFront

theorem of_infix (walled : Walls walls) (notNil : walls ≠ []) (unbroken : Text.IsUnbroken text)
    (found : Painted.outside text <:+: front ++ (walls ++ back)) :
    Painted.outside text <:+: front ∨ Painted.outside text <:+: back := by
  induction walled generalizing front with
  | nil => exact absurd rfl notNil
  | @frozen char kind rest kept _ ih =>
      rcases infix_of_wall found (frozen_not_mem kept text) with inFront | later
      · exact .inl inFront
      · by_cases last : rest = []
        · exact .inr (by simpa [last] using later)
        · exact (@ih [] last later).imp_left fun inNil => inNil.trans List.nil_infix
  | @lineEnd newline rest isEnd _ ih =>
      have goesOn (later : Painted.outside text <:+: rest ++ back) :
          Painted.outside text <:+: front ∨ Painted.outside text <:+: back := by
        by_cases last : rest = []
        · exact .inr (by simpa [last] using later)
        · exact (@ih [] last later).imp_left fun inNil => inNil.trans List.nil_infix
      rcases isEnd with rfl | rfl
      · rcases infix_of_wall found (feed_not_mem unbroken) with inFront | later
        · exact .inl inFront
        · exact goesOn later
      · have cut : Painted.outside text <:+: (front ++ [('\r', .outside)]) ++
            ('\n', .outside) :: (rest ++ back) := by
          simpa using found
        rcases infix_of_wall cut (feed_not_mem unbroken) with inFront | later
        · left
          rcases List.infix_concat_iff.mp inFront with atEnd | inside
          · rcases List.suffix_concat_iff.mp atEnd with isNil | ⟨_, whole, _⟩
            · exact isNil ▸ List.nil_infix
            · exact absurd whole (not_suffix_return unbroken)
          · exact inside
        · exact goesOn later

end Walls

theorem Painted.infix_of_region {region : Region} (nonempty : region.text ≠ [])
    (frozen : region.kind ≠ .outside) {front back : Painted} {text : List Char}
    (found : outside text <:+: front ++ (Piece.paint [region] ++ back)) :
    outside text <:+: front ∨ outside text <:+: back :=
  infix_of_walls found (by simpa using nonempty) fun stroke member =>
    Walls.frozen_not_mem (frozen_paint frozen stroke member) text

theorem Piece.IsFused.exists_outside {regions : List Region} (fused : IsFused regions)
    {text : List Char} (filled : text ≠ [])
    (found : Painted.outside text <:+: paint regions) :
    ∃ region ∈ regions, region.kind = .outside ∧ text <:+: region.text := by
  have notNil : Painted.outside text ≠ [] := by simpa [Painted.outside] using filled
  induction regions with
  | nil => exact absurd (List.infix_nil.mp found) notNil
  | cons first regions ih =>
      rw [paint_eq_append] at found
      by_cases kind : first.kind = .outside
      · have own : Painted.outside text <:+: Painted.outside first.text ∨
            Painted.outside text <:+: paint regions := by
          rw [Painted.paint_of_isOutside (Piece.isOutside_iff.mpr kind)] at found
          cases regions with
          | nil => exact .inl (by simpa using found)
          | cons next regions =>
              -- The next region is frozen and ends the stretch.
              have frozen : next.kind ≠ .outside := by
                have differ := (List.isChain_cons_cons.mp fused.differ).1
                rwa [kind, ne_comm] at differ
              rw [paint_eq_append next] at found ⊢
              have nonempty := fused.nonempty next (by simp)
              exact (Painted.infix_of_region nonempty frozen found).imp_right fun later =>
                later.trans (List.suffix_append _ _).isInfix
        rcases own with inFirst | later
        · have inText : Painted.text (Painted.outside text) <:+:
              Painted.text (Painted.outside first.text) := inFirst.map Prod.fst
          exact ⟨first, by simp, kind, by simpa using inText⟩
        · obtain ⟨region, member, facts⟩ := ih fused.tail later
          exact ⟨region, by simp [member], facts⟩
      · have nonempty := fused.nonempty first (by simp)
        have later : Painted.outside text <:+: paint regions :=
          (@Painted.infix_of_region first nonempty kind [] _ _ found).resolve_left fun inNil =>
            notNil (List.infix_nil.mp inNil)
        obtain ⟨region, member, facts⟩ := ih fused.tail later
        exact ⟨region, by simp [member], facts⟩

def Walled (replaces : Replacement) : Prop :=
  ∀ before text regions after, text ≠ [] → replaces before text regions after →
    (regions = [] ∧ StartsLine before) ∨
      ∃ lead rest, Piece.paint regions = Painted.outside lead ++ rest ∧ lead <+: text ∧
        rest ≠ [] ∧ Walls rest

theorem Revised.stretches {replaces : Replacement} {before after : Option Char}
    {old new : Painted} (revised : Revised replaces after before old new)
    (walled : Walled replaces) {text : List Char} (unbroken : Text.IsUnbroken text) :
    (Painted.outside text <:+: new → Painted.outside text <:+: old) ∧
      (¬ StartsLine before → Painted.outside text <+: new → Painted.outside text <+: old) := by
  induction revised generalizing text with
  | nil => exact ⟨id, fun _ => id⟩
  | @keep before char kind old new _ ih =>
      -- A stretch that starts here goes on in what follows, and not at the start of a line.
      have start : Painted.outside text <+: (char, kind) :: new →
          Painted.outside text <+: (char, kind) :: old := by
        intro found
        cases text with
        | nil => exact List.nil_prefix
        | cons first text =>
            rw [Painted.outside_cons, List.cons_prefix_cons] at found ⊢
            obtain ⟨same, later⟩ := found
            have inLine : ¬ StartsLine (some char) := by
              rw [← (Prod.mk.inj same).1]
              rintro (absent | feed)
              · simp at absent
              · exact unbroken.onLine (by simp [Option.some.inj feed])
            exact ⟨same, (ih unbroken.tail).2 inLine later⟩
      refine ⟨fun found => ?_, fun _ => start⟩
      rcases List.infix_cons_iff.mp found with here | later
      · exact (start here).isInfix
      · exact List.infix_cons ((ih unbroken).1 later)
  | @replace before taken regions old new filled replaced _ ih =>
      rcases walled before taken regions _ filled replaced with
        ⟨rfl, atStart⟩ | ⟨lead, rest, painted, leads, some, walls⟩
      · refine ⟨fun found => ?_, fun inLine => absurd atStart inLine⟩
        exact ((ih unbroken).1 found).trans (List.suffix_append _ _).isInfix
      · have before : Painted.outside lead <+: Painted.outside taken ++ old :=
          (leads.map _).trans (List.prefix_append _ _)
        rw [painted, List.append_assoc]
        constructor
        · intro found
          rcases walls.of_infix some unbroken found with inLead | later
          · exact inLead.trans before.isInfix
          · exact ((ih unbroken).1 later).trans (List.suffix_append _ _).isInfix
        · intro _ found
          exact (walls.of_prefix some unbroken found).trans before

theorem isReturn_of_isLineEnd {newline : List Char} (lineEnd : IsLineEnd newline) :
    ∀ char ∈ newline, Text.isReturn char = true := by
  rcases lineEnd with rfl | rfl
  · exact List.all_eq_true.mp rfl
  · exact List.all_eq_true.mp rfl

theorem paint_displayBlock_ne_nil (newline indent body : List Char) (previous next : Option Char) :
    Piece.paint (displayBlock newline indent body previous next) ≠ [] := by
  simp [displayBlock, Region.display]

theorem walls_displayBlock {newline : List Char} (lineEnd : IsLineEnd newline)
    (indent body : List Char) (previous next : Option Char) :
    Walls (Piece.paint (displayBlock newline indent body previous next)) := by
  refine .paint fun region member => ?_
  simp only [displayBlock, List.mem_append, List.mem_cons] at member
  rcases member with above | rfl | below
  · split at above
    · rw [List.mem_singleton.mp above]
      exact .inr ⟨lineEnd, rfl⟩
    · simp at above
  · exact .inl (by simp [Region.display])
  · split at below
    · rw [List.mem_singleton.mp below]
      exact .inr ⟨lineEnd, rfl⟩
    · simp at below

theorem Stage.walled (stage : Stage) : Walled stage.Replaces := by
  intro before text regions after filled replaced
  have block {newline : List Char} (lineEnd : IsLineEnd newline) (indent body : List Char) :
      ∃ lead rest, Piece.paint (displayBlock newline indent body before after) =
        Painted.outside lead ++ rest ∧ lead <+: text ∧ rest ≠ [] ∧ Walls rest :=
    ⟨[], _, rfl, List.nil_prefix, paint_displayBlock_ne_nil _ _ _ _ _,
      walls_displayBlock lineEnd _ _ _ _⟩
  have frozen (region : Region) (kept : region.kind ≠ .outside) (notNil : region.text ≠ []) :
      ∃ lead rest, Piece.paint [region] = Painted.outside lead ++ rest ∧ lead <+: text ∧
        rest ≠ [] ∧ Walls rest :=
    ⟨[], _, rfl, List.nil_prefix, by simpa using notNil, .of_frozen (Painted.frozen_paint kept)⟩
  have dollars (body : List Char) := frozen (Region.dollars body) (by simp [Region.dollars])
    (by simp [Region.dollars])
  cases replaced with
  | squares lineEnd _ => exact .inr (block lineEnd _ _)
  | squareLines lineEnd _ _ _ _ => exact .inr (block lineEnd _ _)
  | parens _ => exact .inr (dollars _)
  | padded _ _ => exact .inr (dollars _)
  | environment lineEnd _ _ => exact .inr (block lineEnd _ _)
  | @hangingEnvironment newline indent body _ _ lineEnd _ _ _ =>
      right
      refine ⟨indent, Piece.paint (displayBlock newline [] body indent.getLast? after), ?_,
        List.prefix_append _ _, paint_displayBlock_ne_nil _ _ _ _ _,
        walls_displayBlock lineEnd _ _ _ _⟩
      rw [Piece.paint_eq_append, Painted.paint_outside]
  | formula _ _ _ _ _ => exact .inr (frozen _ (by simp [Region.display]) (by simp [Region.display]))
  | squareSpan _ => exact .inr (dollars _)
  | parenSpan _ => exact .inr (dollars _)
  | degree _ _ => exact .inr (dollars _)
  | token _ => exact .inr (dollars _)
  | blankLine _ atStart _ => exact .inl ⟨rfl, atStart⟩

theorem Document.walled_marks : Walled Marks := by
  intro before text regions after filled replaced
  cases replaced with
  | mark frozen _ =>
      exact .inr ⟨[], _, rfl, List.nil_prefix, by simpa using filled,
        .of_frozen (Painted.frozen_paint frozen)⟩

structure Painted.Lacks (IsFind : List Char → Prop) (painted : Painted) : Prop where
  absent : ∀ find, IsFind find → ¬ outside find <:+: painted

structure Text.Finds (recognize : Recognizer Unit) (IsFind : List Char → Prop) : Prop where
  isSome_iff : ∀ before text,
    (recognize before text).isSome = true ↔ ∃ find, IsFind find ∧ find <+: text
  nonempty : ∀ find, IsFind find → find ≠ []
  unbroken : ∀ find, IsFind find → ∀ char ∈ find, isReturn char = false

section Finds

variable {recognize : Text.Recognizer Unit} {IsFind : List Char → Prop}

theorem Revised.lacks {replaces : Replacement} {before after : Option Char} {old new : Painted}
    (revised : Revised replaces after before old new) (walled : Walled replaces)
    (finds : Text.Finds recognize IsFind) (lacks : old.Lacks IsFind) : new.Lacks IsFind := by
  refine ⟨fun find isFind inNew => ?_⟩
  have unbroken := Text.IsUnbroken.of_noReturns (finds.unbroken find isFind)
  exact lacks.absent find isFind ((revised.stretches walled unbroken).1 inNew)

theorem Painted.lacks_nil (filled : ∀ find, IsFind find → find ≠ []) : Lacks IsFind [] := by
  refine ⟨fun find isFind found => filled find isFind ?_⟩
  have isNil := List.infix_nil.mp found
  simpa [outside] using isNil

theorem Painted.Lacks.of_isInfix {part whole : Painted} (lacks : whole.Lacks IsFind)
    (inWhole : part <:+: whole) : part.Lacks IsFind :=
  ⟨fun find isFind found => lacks.absent find isFind (found.trans inWhole)⟩

theorem Painted.Lacks.append {first walls second : Painted} (left : first.Lacks IsFind)
    (right : second.Lacks IsFind) (notNil : walls ≠ [])
    (free : ∀ find, IsFind find → ∀ wall ∈ walls, wall ∉ outside find) :
    Lacks IsFind (first ++ (walls ++ second)) := by
  refine ⟨fun find isFind found => ?_⟩
  rcases infix_of_walls found notNil (free find isFind) with inFirst | inSecond
  · exact left.absent find isFind inFirst
  · exact right.absent find isFind inSecond

theorem Text.Finds.not_mem (finds : Finds recognize IsFind) {stroke : Char × RegionKind}
    (wall : IsWall stroke) (find : List Char) (isFind : IsFind find) :
    stroke ∉ Painted.outside find :=
  wall.not_mem (finds.unbroken find isFind)

theorem Text.Finds.findAll_eq_nil (finds : Finds recognize IsFind) {text : List Char}
    (absent : ∀ find, IsFind find → ¬ find <:+: text) : findAll recognize text = [] := by
  unfold findAll
  generalize (none : Option Char) = before
  fun_induction scan recognize before text with
  | case1 => rfl
  | case2 before char rest _ ih =>
      rw [List.filterMap_cons]
      exact ih fun find isFind found => absent find isFind (List.infix_cons found)
  | case3 before char rest size value found _ _ _ =>
      obtain ⟨find, isFind, start⟩ := (finds.isSome_iff before (char :: rest)).mp (by simp [found])
      exact absurd start.isInfix (absent find isFind)

end Finds

end DollarMath
