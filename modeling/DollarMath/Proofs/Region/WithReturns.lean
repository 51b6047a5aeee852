import DollarMath.Proofs.Region.Feeds
import DollarMath.Proofs.Text.WithReturns

/-!
Regions with a carriage return put before every line feed, and the searches and revisions that make
the same of them as of the regions without.
-/

namespace DollarMath

namespace Piece

variable {κ : Type}

def withReturns (piece : Piece κ) : Piece κ :=
  ⟨piece.kind, Text.withReturns piece.text⟩

@[simp] theorem kind_withReturns (piece : Piece κ) : piece.withReturns.kind = piece.kind := rfl

@[simp] theorem text_withReturns (piece : Piece κ) :
    piece.withReturns.text = Text.withReturns piece.text := rfl

@[simp] theorem join_withReturns (pieces : List (Piece κ)) :
    join (pieces.map withReturns) = Text.withReturns (join pieces) := by
  induction pieces with
  | nil => rfl
  | cons piece pieces ih => rw [List.map_cons, join_cons, join_cons, ih]; simp

variable [DecidableEq κ]

theorem attach_withReturns (piece : Piece κ) (pieces : List (Piece κ)) :
    attach piece.withReturns (pieces.map withReturns) =
      (attach piece pieces).map withReturns := by
  cases pieces with
  | nil =>
      simp only [attach, List.map_nil, text_withReturns, Text.isEmpty_withReturns]
      split <;> rfl
  | cons next rest =>
      simp only [attach, List.map_cons, text_withReturns, kind_withReturns,
        Text.isEmpty_withReturns]
      by_cases empty : piece.text.isEmpty = true
      · simp [empty]
      · by_cases same : piece.kind = next.kind
        · simp [empty, same, withReturns]
        · simp [empty, same]

theorem fuse_withReturns (pieces : List (Piece κ)) :
    fuse (pieces.map withReturns) = (fuse pieces).map withReturns := by
  induction pieces with
  | nil => rfl
  | cons piece pieces ih => rw [List.map_cons, fuse_cons, ih, attach_withReturns, fuse_cons]

theorem fuse_eq_of_paint {first second : List (Piece κ)}
    (same : paint first = paint (second.map withReturns)) :
    fuse first = (fuse second).map withReturns := by
  rw [← fuse_withReturns, fuse_eq_ofPaint, same, ← fuse_eq_ofPaint]

end Piece

theorem firstOf_withReturns (regions : List Region) :
    firstOf (regions.map Piece.withReturns) = (firstOf regions).map Text.asReturn := by
  cases regions with
  | nil => rfl
  | cons region regions => exact Text.head?_withReturns region.text

namespace Text

variable {α : Type} {recognize : Recognizer α}

/-- A recogniser that never starts at a return and that takes the same from a text with returns as
from the text without, as far as a find is as asked. -/
structure Recognizer.Keeps (recognize : Recognizer α) (carry : α → α)
    (asked : List Char → α → Option Char → Prop) : Prop where
  takes : recognize.Takes
  returns : ∀ before char rest, isReturn char = true → recognize before (char :: rest) = none
  missed : ∀ before text, '\r' ∉ text → recognize before text = none →
    recognize before (withReturns text) = none
  found : ∀ before taken left value, '\r' ∉ taken ++ left →
    recognize before (taken ++ left) = some (taken.length, value) → asked taken value left.head? →
    recognize before (withReturns (taken ++ left)) =
      some ((withReturns taken).length, carry value)

namespace Recognizer.Keeps

variable {carry : α → α}

/-- What a find has to be followed by is nothing if its size is told by the same rule. -/
theorem of_same
    (returns : ∀ before char rest, isReturn char = true → recognize before (char :: rest) = none)
    (same : ∀ before text, '\r' ∉ text → recognize before (withReturns text) =
      (recognize before text).map fun found =>
        ((withReturns (text.take found.1)).length, carry found.2))
    (takes : recognize.Takes) :
    recognize.Keeps carry fun _ _ _ => True where
  takes := takes
  returns := returns
  missed before text free missed := by
    rw [same before text free, missed]
    rfl
  found before taken left value free found _ := by
    rw [same before _ free, found, Option.map_some, List.take_left]

theorem of_word (word : List Char) (notNil : word ≠ []) (bare : '\r' ∉ word ∧ '\n' ∉ word)
    (starts : ∀ before text, (∀ rest, text ≠ word ++ rest) → recognize before text = none)
    (same : ∀ before rest, '\r' ∉ rest → recognize before (word ++ withReturns rest) =
      (recognize before (word ++ rest)).map fun found =>
        ((withReturns ((word ++ rest).take found.1)).length, carry found.2))
    (takes : recognize.Takes) :
    recognize.Keeps carry fun _ _ _ => True := by
  refine of_same ?_ ?_ takes
  · intro before char rest ret
    apply starts
    intro others same
    obtain ⟨first, word, rfl⟩ := List.exists_cons_of_ne_nil notNil
    obtain ⟨rfl, _⟩ := List.cons.inj same
    simp only [isReturn, Bool.or_eq_true, beq_iff_eq] at ret
    rcases ret with rfl | rfl
    · exact bare.1 (by simp)
    · exact bare.2 (by simp)
  · intro before text free
    have prefixes := isPrefixOf_withReturns bare free
    rw [Bool.eq_iff_iff, List.isPrefixOf_iff_prefix, List.isPrefixOf_iff_prefix] at prefixes
    by_cases shape : word <+: text
    · obtain ⟨rest, rfl⟩ := shape
      rw [withReturns_append, withReturns_of_free bare.2]
      exact same before rest fun member => free (by simp [member])
    · rw [starts before text fun rest same => shape ⟨rest, same.symm⟩,
        starts before _ fun rest same => shape (prefixes.mp ⟨rest, same.symm⟩)]
      rfl

theorem weaken {asked stronger : List Char → α → Option Char → Prop}
    (keeps : recognize.Keeps carry asked)
    (imply : ∀ taken value next, stronger taken value next → asked taken value next) :
    recognize.Keeps carry stronger where
  takes := keeps.takes
  returns := keeps.returns
  missed := keeps.missed
  found before taken left value free found meets :=
    keeps.found before taken left value free found (imply _ _ _ meets)

end Recognizer.Keeps

end Text

theorem Substitutes.takes {α : Type} {recognize : Text.Recognizer α} {build : Build α}
    {replaces : Replacement} (substitutes : Substitutes recognize build replaces) :
    recognize.Takes := by
  intro previous text size value found
  obtain ⟨taken, left, textEq, sizeEq, filled, _⟩ := substitutes previous text size value found
  exact ⟨taken, left, textEq, sizeEq, filled⟩

def Build.Carries {α : Type} (build build' : Build α) (carry : α → α)
    (asked : List Char → α → Option Char → Prop) : Prop :=
  ∀ before taken value next after, asked taken value next →
    build' before (Text.withReturns taken) (carry value) (after.map Text.asReturn) =
      (build before taken value after).map (List.map Piece.withReturns)

def Text.Found.withReturns {α : Type} (carry : α → α) : Text.Found α → List (Text.Found α)
  | .gap char => (Text.withReturns [char]).map .gap
  | .hit before taken value after =>
    [.hit before (Text.withReturns taken) (carry value) (after.map Text.asReturn)]

theorem Text.scan_withReturns {α : Type} {recognize : Recognizer α} {carry : α → α}
    {asked : List Char → α → Option Char → Prop} (keeps : recognize.Keeps carry asked)
    {previous : Option Char} {text : List Char} (free : '\r' ∉ text)
    (closed : ∀ found ∈ scan recognize previous text, found.Meets asked) :
    scan recognize previous (withReturns text) =
      (scan recognize previous text).flatMap (Found.withReturns carry) := by
  revert free closed
  refine keeps.takes.search (motive := fun previous text => '\r' ∉ text →
    (∀ found ∈ scan recognize previous text, found.Meets asked) →
    scan recognize previous (withReturns text) =
      (scan recognize previous text).flatMap (Found.withReturns carry)) ?_ ?_ ?_ previous text
  · intro before _ _
    rw [withReturns_nil, scan]
    rfl
  · intro before char rest missed ih free closed
    rw [scan_of_none missed] at closed ⊢
    have later := ih (fun member => free (by simp [member]))
      fun found member => closed found (by simp [member])
    by_cases feed : char = '\n'
    · subst feed
      rw [withReturns_feed, scan_of_none (keeps.returns _ _ _ (by decide)),
        scan_of_none (keeps.returns _ _ _ (by decide)), later]
      rfl
    · have missed' := keeps.missed before _ free missed
      rw [withReturns_cons feed] at missed' ⊢
      rw [scan_of_none missed', later]
      simp [Found.withReturns, withReturns_cons feed]
  · intro before taken left value filled taking ih free closed
    rw [scan_of_some filled taking] at closed ⊢
    have later := ih (fun member => free (by simp [member]))
      fun found member => closed found (by simp [member])
    have taking' := keeps.found before taken left value free taking (closed _ List.mem_cons_self)
    rw [withReturns_append] at taking' ⊢
    rw [scan_of_some (by simpa using filled) taking', head?_withReturns, getLast?_withReturns,
      later]
    rfl

theorem paint_place_withReturns {α : Type} {build build' : Build α} {carry : α → α}
    {asked : List Char → α → Option Char → Prop} (carries : build.Carries build' carry asked)
    (before after : Option Char) {found : Text.Found α} (meets : found.Meets asked) :
    Piece.paint ((found.withReturns carry).flatMap
        (build'.place before (after.map Text.asReturn))) =
      Piece.paint ((build.place before after found).map Piece.withReturns) := by
  cases found with
  | gap char =>
      by_cases feed : char = '\n'
      · subst feed
        rfl
      · simp [Text.Found.withReturns, Build.place, Region.outside, Piece.withReturns,
          Text.withReturns_cons feed]
  | hit previous taken value next =>
      simp only [Text.Found.withReturns, List.flatMap_cons, List.flatMap_nil, List.append_nil,
        Build.place]
      rw [← Option.map_or, carries _ _ _ _ _ meets]
      cases build (previous.or before) taken value (next.or after) <;> rfl

theorem substitution_withReturns {α : Type} {recognize : Text.Recognizer α}
    {build build' : Build α} {carry : α → α} {asked : List Char → α → Option Char → Prop}
    (keeps : recognize.Keeps carry asked) (carries : build.Carries build' carry asked)
    {text : List Char} (free : '\r' ∉ text)
    (closed : ∀ found ∈ Text.scan recognize none text, found.Meets asked)
    (before after : Option Char) :
    Piece.paint (substitution recognize build' before (Text.withReturns text)
        (after.map Text.asReturn)) =
      Piece.paint ((substitution recognize build before text after).map Piece.withReturns) := by
  rw [substitution_eq, substitution_eq, Text.scan_withReturns keeps free closed]
  generalize Text.scan recognize none text = parts at closed
  induction parts with
  | nil => rfl
  | cons part parts ih =>
      have own := paint_place_withReturns carries before after (closed part (by simp))
      have later := ih fun found member => closed found (by simp [member])
      simp only [List.flatMap_cons, List.flatMap_append, List.map_append, Piece.paint_append, own,
        later]

theorem reviseOutside_withReturns {revise revise' : Revision} {regions : List Region}
    (own : ∀ region ∈ regions, region.isOutside = true → ∀ before after,
      Piece.paint (revise' before (Text.withReturns region.text) (after.map Text.asReturn)) =
        Piece.paint ((revise before region.text after).map Piece.withReturns)) :
    reviseOutside revise' (regions.map Piece.withReturns) =
      (reviseOutside revise regions).map Piece.withReturns := by
  apply Piece.fuse_eq_of_paint
  generalize (none : Option Char) = before
  induction regions generalizing before with
  | nil => rfl
  | cons region regions ih =>
      have later := ih (fun other member => own other (by simp [member]))
      rw [List.map_cons, reviseOutsideAfter, reviseOutsideAfter, List.map_append,
        Piece.paint_append, Piece.paint_append, List.tail_nil, firstOf_withReturns,
        Piece.text_withReturns, Text.getLast?_withReturns, later]
      congr 1
      have same : region.withReturns.isOutside = region.isOutside := rfl
      rw [same]
      split
      next free =>
        simp only [Bool.not_false, Bool.and_true] at free
        simp only [List.headD_nil, reviseAround, Text.isEmpty_withReturns]
        split
        · rfl
        · exact own region (by simp) free before _
      next => rfl

/-- A substitution in the regions outside that looks at no return makes the same of regions with
returns. -/
theorem reviseOutside_substitution {α : Type} {recognize : Text.Recognizer α}
    {build build' : Build α} {carry : α → α} {asked : List Char → α → Option Char → Prop}
    (keeps : recognize.Keeps carry asked) (carries : build.Carries build' carry asked)
    {regions : List Region} (free : '\r' ∉ Piece.join regions)
    (closed : ∀ region ∈ regions, region.isOutside = true →
      ∀ found ∈ Text.scan recognize none region.text, found.Meets asked) :
    reviseOutside (substitution recognize build') (regions.map Piece.withReturns) =
      (reviseOutside (substitution recognize build) regions).map Piece.withReturns := by
  apply reviseOutside_withReturns
  intro region member isOutside before after
  have bare : '\r' ∉ region.text :=
    fun inside => free (List.mem_flatMap.mpr ⟨region, member, inside⟩)
  exact substitution_withReturns keeps carries bare (closed region member isOutside) before after

theorem carries_marking {α : Type} (carry : α → α) (kind : RegionKind) :
    Build.Carries (fun _ taken _ _ => some [⟨kind, taken⟩] : Build α)
      (fun _ taken _ _ => some [⟨kind, taken⟩]) carry fun _ _ _ => True :=
  fun _ _ _ _ _ _ => rfl

def Text.shift (text : List Char) (offset : Nat) : Nat :=
  (withReturns (text.take offset)).length

theorem Text.shift_length (front back : List Char) :
    shift (front ++ back) front.length = (withReturns front).length := by
  rw [shift, List.take_left]

theorem Text.shift_mono (text : List Char) {first second : Nat} (before : first ≤ second) :
    shift text first ≤ shift text second := by
  have cut := List.take_append_drop first (text.take second)
  rw [List.take_take, Nat.min_eq_left before] at cut
  rw [shift, shift, ← cut, withReturns_append, List.length_append]
  omega

theorem Text.length_lt_withReturns_concat (text : List Char) (char : Char) :
    (withReturns text).length < (withReturns (text ++ [char])).length := by
  have filled : withReturns [char] ≠ [] := by simp
  have positive := List.length_pos_iff.mpr filled
  rw [withReturns_append, List.length_append]
  omega

theorem Text.shift_lt {text : List Char} {first second : Nat} (before : first < second)
    (inside : second ≤ text.length) : shift text first < shift text second := by
  have next : first < text.length := by omega
  have grows := length_lt_withReturns_concat (text.take first) text[first]
  rw [List.take_concat_get' text first next] at grows
  have later : shift text (first + 1) ≤ shift text second := shift_mono text (by omega)
  rw [shift] at later ⊢
  omega

def Span.withReturns (text : List Char) (span : Span) : Span :=
  ⟨Text.shift text span.start, Text.shift text span.stop⟩

theorem Span.contains_withReturns (span : Span) {text front back : List Char} {char : Char}
    (whole : text = front ++ char :: back) {place : Nat}
    (low : (Text.withReturns front).length ≤ place)
    (high : place < (Text.withReturns (front ++ [char])).length) :
    (span.withReturns text).contains place = span.contains front.length := by
  have here : Text.shift text front.length = (Text.withReturns front).length := by
    rw [whole, Text.shift_length]
  have next : Text.shift text (front.length + 1) =
      (Text.withReturns (front ++ [char])).length := by
    have cut : text = (front ++ [char]) ++ back := by simp [whole]
    have length : front.length + 1 = (front ++ [char]).length := by simp
    rw [cut, length, Text.shift_length]
  have mono := @Text.shift_mono text
  have covers : (span.withReturns text).contains place =
      (decide (Text.shift text span.start ≤ place) && decide (place < Text.shift text span.stop)) :=
    rfl
  rw [covers, Bool.eq_iff_iff]
  simp only [Span.contains, Bool.and_eq_true, decide_eq_true_eq]
  constructor
  · rintro ⟨starts, stops⟩
    constructor
    · by_contra late
      have := @mono (front.length + 1) span.start (by omega)
      omega
    · by_contra early
      have := @mono span.stop front.length (by omega)
      omega
  · rintro ⟨starts, stops⟩
    have first := @mono span.start front.length starts
    have last := @mono (front.length + 1) span.stop (by omega)
    exact ⟨by omega, by omega⟩

theorem hitSpans_withReturns {α : Type} (carry : α → α) {parts : List (Text.Found α)}
    {whole front back : List Char}
    (wholeEq : whole = front ++ parts.flatMap Text.Found.text ++ back) :
    Text.hitSpans (Text.withReturns front).length (parts.flatMap (Text.Found.withReturns carry)) =
      (Text.hitSpans front.length parts).map (Span.withReturns whole) := by
  induction parts generalizing front with
  | nil => rfl
  | cons part parts ih =>
      have cut : whole = (front ++ part.text) ++ parts.flatMap Text.Found.text ++ back := by
        simp [wholeEq]
      have later := ih cut
      rw [Text.withReturns_append, List.length_append, List.length_append] at later
      cases part with
      | gap char =>
          rw [Text.Found.text, List.length_singleton] at later
          rw [List.flatMap_cons, Text.hitSpans, ← later]
          by_cases feed : char = '\n'
          · subst feed
            rfl
          · rw [Text.Found.withReturns, Text.withReturns_cons feed]
            rfl
      | hit before taken value after =>
          have start : Text.shift whole front.length = (Text.withReturns front).length := by
            rw [wholeEq, List.append_assoc, Text.shift_length]
          have stop : Text.shift whole (front.length + taken.length) =
              (Text.withReturns front).length + (Text.withReturns taken).length := by
            rw [cut, Text.Found.text, List.append_assoc, ← List.length_append, Text.shift_length,
              Text.withReturns_append, List.length_append]
          rw [Text.Found.text] at later
          rw [List.flatMap_cons, Text.hitSpans, List.map_cons, ← later, Span.withReturns]
          dsimp only
          rw [start, stop]
          rfl

end DollarMath
