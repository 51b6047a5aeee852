import DollarMath.Proofs.Region.LineNumbers

/-!
A document as rows: its characters, each with a label, cut after every line feed. The physical lines
of fragments are these rows, whatever the labels tell of the fragments.
-/

namespace DollarMath

abbrev Row (κ : Type) := List (Char × κ)

namespace Row

variable {κ : Type}

def text (row : Row κ) : List Char :=
  row.map Prod.fst

@[simp] theorem text_append (first second : Row κ) :
    text (first ++ second) = text first ++ text second :=
  List.map_append

def consStroke (stroke : Char × κ) : List (Row κ) → List (Row κ)
  | [] => [[stroke]]
  | row :: rows => (stroke :: row) :: rows

end Row

def rows {κ : Type} : List (Char × κ) → List (Row κ)
  | [] => []
  | stroke :: rest =>
    if stroke.1 = '\n' then [stroke] :: rows rest else Row.consStroke stroke (rows rest)

section Rows

variable {κ : Type}

@[simp] theorem flatten_rows (strokes : List (Char × κ)) : (rows strokes).flatten = strokes := by
  induction strokes with
  | nil => rfl
  | cons stroke rest ih =>
      rw [rows]
      split
      · simp [ih]
      · generalize rows rest = below at ih ⊢
        rw [← ih]
        cases below <;> rfl

/-- What is read off the characters of a document has the physical lines that are read off its rows. -/
theorem physicalLines_map {read : Char × κ → Char} {strokes : List (Char × κ)}
    (feeds : ∀ stroke ∈ strokes, read stroke = '\n' ↔ stroke.1 = '\n') :
    Text.physicalLines (strokes.map read) = (rows strokes).map (List.map read) := by
  induction strokes with
  | nil => rfl
  | cons stroke rest ih =>
      obtain ⟨own, later⟩ := List.forall_mem_cons.mp feeds
      rw [rows, List.map_cons, Text.physicalLines, ih later]
      by_cases feed : stroke.1 = '\n'
      · rw [if_pos feed, if_pos (own.mpr feed)]
        rfl
      · rw [if_neg feed, if_neg (mt own.mp feed)]
        cases rows rest <;> rfl

theorem map_text_rows (strokes : List (Char × κ)) :
    (rows strokes).map Row.text = Text.physicalLines (strokes.map Prod.fst) :=
  (physicalLines_map fun _ _ => Iff.rfl).symm

theorem rows_free {front : Row κ} (filled : front ≠ []) (free : '\n' ∉ front.text)
    (rest : List (Char × κ)) :
    rows (front ++ rest) = (front ++ (rows rest).headD []) :: (rows rest).tail := by
  induction front with
  | nil => exact absurd rfl filled
  | cons stroke front ih =>
      rw [Row.text, List.map_cons, List.mem_cons, not_or] at free
      rw [List.cons_append, rows, if_neg (Ne.symm free.1)]
      by_cases last : front = []
      · subst last
        rw [List.nil_append]
        cases rows rest <;> rfl
      · rw [ih last free.2]
        rfl

theorem rows_feed {body : Row κ} (free : '\n' ∉ body.text) (label : κ) (rest : List (Char × κ)) :
    rows (body ++ ('\n', label) :: rest) = (body ++ [('\n', label)]) :: rows rest := by
  by_cases none : body = []
  · subst none
    rfl
  · rw [rows_free none free, rows, if_pos rfl]
    rfl

theorem rows_append {row : Row κ} (isRow : Text.IsRow row.text)
    (ends : row.text.getLast? = some '\n') (rest : List (Char × κ)) :
    rows (row ++ rest) = row :: rows rest := by
  obtain ⟨body, last, rfl⟩ := (List.eq_nil_or_concat' row).resolve_left (by
    rintro rfl
    simp [Row.text] at ends)
  obtain ⟨char, label⟩ := last
  rw [Row.text_append] at isRow ends
  have feed : char = '\n' := by simpa [Row.text] using ends
  subst feed
  rw [List.append_assoc, List.singleton_append, rows_feed isRow.not_mem_front]

structure AreRows (all : List (Row κ)) : Prop where
  isRow : ∀ row ∈ all, row ≠ [] ∧ Text.IsRow row.text
  ended : all.Pairwise fun first _ => first.text.getLast? = some '\n'

theorem AreRows.sublist {fewer all : List (Row κ)} (areRows : AreRows all)
    (sub : fewer.Sublist all) : AreRows fewer :=
  ⟨fun row member => areRows.isRow row (sub.subset member), areRows.ended.sublist sub⟩

theorem areRows_rows (strokes : List (Char × κ)) : AreRows (rows strokes) := by
  induction strokes with
  | nil => exact ⟨by simp [rows], .nil⟩
  | cons stroke rest ih =>
      obtain ⟨char, label⟩ := stroke
      rw [rows]
      split
      next feed =>
        have feed : char = '\n' := feed
        refine ⟨?_, List.pairwise_cons.mpr ⟨fun _ _ => by simp [Row.text, feed], ih.ended⟩⟩
        intro row member
        rcases List.mem_cons.mp member with rfl | below
        · exact ⟨by simp, .inl ⟨[], by simp [Row.text, feed], by simp⟩⟩
        · exact ih.isRow row below
      next plain =>
        have plain : char ≠ '\n' := plain
        cases below : rows rest with
        | nil =>
            refine ⟨fun row member => ?_, List.pairwise_singleton _ _⟩
            rw [List.mem_singleton.mp member]
            exact ⟨by simp, .inr (by simp [Row.text, Ne.symm plain])⟩
        | cons row others =>
            rw [below] at ih
            obtain ⟨filled, isRow⟩ := ih.isRow row (by simp)
            refine ⟨?_, List.pairwise_cons.mpr ⟨fun other member => ?_, ih.ended.tail⟩⟩
            · intro own member
              rcases List.mem_cons.mp member with rfl | later
              · refine ⟨by simp, ?_⟩
                rcases isRow with ⟨body, textEq, free⟩ | free
                · exact .inl ⟨char :: body, congrArg (char :: ·) textEq, by simp [free, Ne.symm plain]⟩
                · exact .inr (by simpa [Row.text, Ne.symm plain] using free)
              · exact ih.isRow own (by simp [later])
            · have ended := List.rel_of_pairwise_cons ih.ended member
              rw [Row.text, List.map_cons, List.getLast?_cons]
              rw [Row.text] at ended
              rw [ended]
              rfl

theorem rows_flatten {all : List (Row κ)} (areRows : AreRows all) : rows all.flatten = all := by
  induction all with
  | nil => rfl
  | cons row all ih =>
      obtain ⟨filled, isRow⟩ := areRows.isRow row (by simp)
      have others := ih (areRows.sublist (List.sublist_cons_self row all))
      rw [List.flatten_cons]
      cases all with
      | nil =>
          rcases isRow with ⟨body, textEq, free⟩ | free
          · rw [rows_append (.inl ⟨body, textEq, free⟩) (by simp [textEq])]
            rfl
          · rw [rows_free filled free]
            simp [rows]
      | cons next all =>
          have ended := List.rel_of_pairwise_cons areRows.ended (List.mem_cons_self ..)
          rw [rows_append isRow ended, others]

theorem rows_map {ι : Type} {relabel : Char × κ → Char × ι} (keeps : ∀ stroke, (relabel stroke).1 = stroke.1)
    (strokes : List (Char × κ)) :
    rows (strokes.map relabel) = (rows strokes).map (List.map relabel) := by
  induction strokes with
  | nil => rfl
  | cons stroke rest ih =>
      rw [List.map_cons, rows, rows, keeps, ih]
      split
      · rfl
      · cases rows rest <;> rfl

variable {above below : List (Row κ)} {row : Row κ}

theorem rows_around {strokes : List (Char × κ)} (split : rows strokes = above ++ row :: below) :
    strokes = above.flatten ++ (row ++ below.flatten) ∧ AreRows (above ++ row :: below) := by
  refine ⟨?_, split ▸ areRows_rows strokes⟩
  rw [← flatten_rows strokes, split, List.flatten_append, List.flatten_cons]

/-- The line feeds above a row are as many as the rows. -/
theorem AreRows.count_above (areRows : AreRows (above ++ row :: below)) :
    (Row.text above.flatten).count '\n' = above.length := by
  induction above with
  | nil => rfl
  | cons first above ih =>
      have ended : first.text.getLast? = some '\n' :=
        (List.pairwise_cons.mp areRows.ended).1 row (by simp)
      have own := (areRows.isRow first (by simp)).2.count_feed
      rw [if_pos ended] at own
      have later := ih (areRows.sublist (List.sublist_cons_self first _))
      rw [List.flatten_cons, Row.text_append, List.count_append, own, later, List.length_cons,
        Nat.add_comm]

theorem AreRows.ends_above (areRows : AreRows (above ++ row :: below)) :
    above = [] ∨ (Row.text above.flatten).getLast? = some '\n' := by
  obtain rfl | ⟨init, last, rfl⟩ := List.eq_nil_or_concat' above
  · exact .inl rfl
  · have ended : last.text.getLast? = some '\n' :=
      (List.pairwise_append.mp areRows.ended).2.2 last (by simp) row (by simp)
    have filled : last.text ≠ [] := by
      intro isNil
      simp [isNil] at ended
    right
    rw [List.flatten_append, List.flatten_singleton, Row.text_append,
      List.getLast?_append_of_ne_nil _ filled, ended]

theorem AreRows.ends_row (areRows : AreRows (above ++ row :: below)) :
    below = [] ∨ row.text.getLast? = some '\n' := by
  cases below with
  | nil => exact .inl rfl
  | cons next below =>
      have own := (List.pairwise_append.mp areRows.ended).2.1
      exact .inr ((List.pairwise_cons.mp own).1 next (by simp))

end Rows

namespace Painted

/-- The characters on the line of a row, whatever kinds they have. -/
theorem onLine_of_areRows {κ : Type} {front back : List (Row κ)} {row : Row κ}
    (areRows : AreRows (front ++ row :: back)) {above own below : Painted}
    (aboveText : above.text = Row.text front.flatten) (ownText : own.text = row.text)
    (ends : back = [] → below = []) (line : Nat) :
    onLine (line + front.length) line (above ++ (own ++ below)) = own := by
  rw [← areRows.count_above, ← aboveText]
  refine onLine_between (ownText ▸ (areRows.isRow row (by simp)).2) ?_ ?_ line
  · refine areRows.ends_above.imp (fun isNil => ?_) fun ended => aboveText ▸ ended
    rw [isNil] at aboveText
    exact List.map_eq_nil_iff.mp aboveText
  · exact areRows.ends_row.imp ends fun ended => ownText ▸ ended

end Painted

namespace Fragment

variable {κ : Type}

def strokes (label : Fragment → κ) (fragment : Fragment) : Row κ :=
  fragment.text.map (·, label fragment)

@[simp] theorem text_strokes (label : Fragment → κ) (fragment : Fragment) :
    (fragment.strokes label).text = fragment.text := by
  simp [strokes, Row.text, Function.comp_def]

end Fragment

namespace Line

variable {κ : Type}

def row (label : Fragment → κ) (line : Line) : Row κ :=
  line.fragments.flatMap (Fragment.strokes label)

@[simp] theorem text_row (label : Fragment → κ) (line : Line) : (line.row label).text = line.text := by
  rw [row, Row.text, List.map_flatMap, Line.text]
  exact List.flatMap_congr fun fragment _ => fragment.text_strokes label

theorem any_row (label : Fragment → κ) {line : Line}
    (filled : ∀ fragment ∈ line.fragments, fragment.text ≠ []) (test : κ → Bool) :
    ((line.row label).any fun stroke => test stroke.2) =
      line.fragments.any fun fragment => test (label fragment) := by
  rw [Bool.eq_iff_iff, List.any_eq_true, List.any_eq_true]
  constructor
  · rintro ⟨stroke, inRow, holds⟩
    obtain ⟨fragment, inLine, inFragment⟩ := List.mem_flatMap.mp inRow
    obtain ⟨char, _, rfl⟩ := List.mem_map.mp inFragment
    exact ⟨fragment, inLine, holds⟩
  · rintro ⟨fragment, inLine, holds⟩
    obtain ⟨char, rest, textEq⟩ := List.exists_cons_of_ne_nil (filled fragment inLine)
    refine ⟨(char, label fragment), List.mem_flatMap.mpr ⟨fragment, inLine, ?_⟩, holds⟩
    simp [Fragment.strokes, textEq]

theorem all_row (label : Fragment → κ) {line : Line}
    (filled : ∀ fragment ∈ line.fragments, fragment.text ≠ []) (test : κ → Bool) :
    ((line.row label).all fun stroke => test stroke.2) =
      line.fragments.all fun fragment => test (label fragment) := by
  rw [List.all_eq_not_any_not, List.all_eq_not_any_not, any_row label filled fun value => !test value]

theorem map_row_consFragment (label : Fragment → κ) (fragment : Fragment) (lines : List Line) :
    (consFragment fragment lines).map (row label) =
      (fragment.strokes label ++ (lines.map (row label)).headD []) :: (lines.map (row label)).tail := by
  cases lines <;> simp [consFragment, row]

theorem map_row_group (label : Fragment → κ) {all : List Fragment}
    (isRow : ∀ fragment ∈ all, fragment.text ≠ [] ∧ Text.IsRow fragment.text) :
    (group all).map (row label) = rows (all.flatMap (Fragment.strokes label)) := by
  induction all with
  | nil => rfl
  | cons fragment all ih =>
      obtain ⟨filled, own⟩ := isRow fragment (by simp)
      have others := ih fun other member => isRow other (by simp [member])
      have textEq := fragment.text_strokes label
      rw [List.flatMap_cons, group]
      split
      next ends =>
        have feed : fragment.text.getLast? = some '\n' := by simpa [Fragment.endsLine] using ends
        rw [rows_append (by rwa [textEq]) (by rwa [textEq]), List.map_cons, others]
        simp [row]
      next goesOn =>
        have free : '\n' ∉ fragment.text := by
          rcases own with ⟨body, bodyEq, _⟩ | free
          · simp [Fragment.endsLine, bodyEq] at goesOn
          · exact free
        rw [rows_free (by simpa [Fragment.strokes] using filled) (by rwa [textEq]), ← others,
          map_row_consFragment]

theorem map_row_ofRegions (label : Fragment → κ) (regions : List Region) :
    (ofRegions regions).map (row label) =
      rows ((Fragment.ofRegions 0 regions).flatMap (Fragment.strokes label)) :=
  map_row_group label fun _ member =>
    ⟨(Fragment.index_ofRegions member).2.2, Fragment.isRow_of_ofRegions member⟩

structure IsPlaced (line : Line) : Prop where
  nonempty : line.fragments ≠ []
  filled : ∀ fragment ∈ line.fragments, fragment.text ≠ []
  spanEq : ∀ fragment ∈ line.fragments,
    fragment.span.stop = fragment.span.start + fragment.text.length
  apart : ∀ first second rest, line.fragments = first :: second :: rest →
    first.index ≠ second.index

theorem isPlaced_of_mem {regions : List Region} {line : Line}
    (member : line ∈ ofRegions regions) : line.IsPlaced := by
  obtain ⟨above, below, split⟩ := List.append_of_mem member
  have placed := ofRegions_split split
  have inRegions : ∀ fragment ∈ line.fragments, ∃ front back,
      Fragment.ofRegions 0 regions = front ++ fragment :: back := by
    intro fragment inLine
    refine List.append_of_mem ?_
    rw [placed.fragmentsEq]
    simp [inLine]
  refine ⟨placed.cut.nonempty, fun fragment inLine => ?_, fun fragment inLine => ?_,
    fun first second rest fragmentsEq => ?_⟩
  · obtain ⟨front, back, whole⟩ := inRegions fragment inLine
    obtain ⟨_, _, _, _, _, _, _, lies⟩ := Fragment.ofRegions_split whole
    exact lies.nonempty
  · obtain ⟨front, back, whole⟩ := inRegions fragment inLine
    obtain ⟨_, _, _, _, _, _, _, lies⟩ := Fragment.ofRegions_split whole
    rw [lies.spanEq]
  · have whole := placed.fragmentsEq
    rw [fragmentsEq] at whole
    exact Nat.ne_of_lt (Fragment.index_lt_of_next whole
      (placed.cut.goesOn [] first (second :: rest) fragmentsEq (by simp)))

end Line

end DollarMath
