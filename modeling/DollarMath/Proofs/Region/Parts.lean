import DollarMath.Proofs.Region.LineNumbers

/-!
A document cut into what a pass keeps and what it makes inline math. The texts of the parts before
the pass make up the document, those after it the result, so that the parts say which pieces of the
document are replaced, all at once, and that nothing else changes.
-/

namespace DollarMath

/-- A part of a document that is worked over: a character that stays with its kind, or a text
outside with the body that takes its place between two dollars. -/
inductive Part where
  | kept (stroke : Char × RegionKind)
  | wrapped (text body : List Char)

structure Place where
  before : List Char
  text : List Char
  body : List Char
  after : List Char

namespace Part

def source : Part → Painted
  | kept stroke => [stroke]
  | wrapped text _ => Painted.outside text

def result : Part → Painted
  | kept stroke => [stroke]
  | wrapped _ body => Piece.paint [Region.dollars body]

def sources (parts : List Part) : Painted :=
  parts.flatMap source

def results (parts : List Part) : Painted :=
  parts.flatMap result

def places : (before : List Char) → List Part → (after : List Char) → List Place
  | _, [], _ => []
  | before, kept stroke :: parts, after => places (before ++ [stroke.1]) parts after
  | before, wrapped text body :: parts, after =>
    ⟨before, text, body, (sources parts).text ++ after⟩ :: places (before ++ text) parts after

@[simp] theorem sources_nil : sources [] = [] := rfl

@[simp] theorem results_nil : results [] = [] := rfl

@[simp] theorem sources_cons (part : Part) (parts : List Part) :
    sources (part :: parts) = part.source ++ sources parts := rfl

@[simp] theorem results_cons (part : Part) (parts : List Part) :
    results (part :: parts) = part.result ++ results parts := rfl

@[simp] theorem sources_append (first second : List Part) :
    sources (first ++ second) = sources first ++ sources second :=
  List.flatMap_append

@[simp] theorem results_append (first second : List Part) :
    results (first ++ second) = results first ++ results second :=
  List.flatMap_append

@[simp] theorem places_append (before : List Char) (first second : List Part)
    (after : List Char) :
    places before (first ++ second) after =
      places before first ((sources second).text ++ after) ++
        places (before ++ (sources first).text) second after := by
  induction first generalizing before with
  | nil => simp [places]
  | cons part first ih =>
      cases part with
      | kept stroke => simp [places, ih, source, Painted.text]
      | wrapped text body => simp [places, ih, source]

theorem text_of_mem_places {parts : List Part} {before after : List Char} {place : Place}
    (member : place ∈ places before parts after) :
    ∃ front back, (sources parts).text = front ++ (place.text ++ back) ∧
      place.before = before ++ front ∧ place.after = back ++ after := by
  induction parts generalizing before with
  | nil => simp [places] at member
  | cons part parts ih =>
      cases part with
      | kept stroke =>
          obtain ⟨front, back, textEq, beforeEq, afterEq⟩ := ih member
          exact ⟨stroke.1 :: front, back, by simp [source, Painted.text, ← textEq],
            by simp [beforeEq], afterEq⟩
      | wrapped text body =>
          rcases List.mem_cons.mp member with rfl | later
          · exact ⟨[], (sources parts).text, by simp [source], by simp, rfl⟩
          · obtain ⟨front, back, textEq, beforeEq, afterEq⟩ := ih later
            exact ⟨text ++ front, back, by simp [source, textEq], by simp [beforeEq], afterEq⟩

theorem filled_of_rule {rule : Place → Prop} (filled : ∀ place, rule place → place.text ≠ [])
    {parts : List Part} {before after : List Char}
    (rules : ∀ place ∈ places before parts after, rule place) :
    ∀ text body, wrapped text body ∈ parts → text ≠ [] := by
  intro text body member
  obtain ⟨left, right, rfl⟩ := List.append_of_mem member
  have own := rules ⟨before ++ (sources left).text, text, body, (sources right).text ++ after⟩
    (by simp [places])
  exact filled _ own

def keep (painted : Painted) : List Part :=
  painted.map kept

@[simp] theorem sources_keep (painted : Painted) : sources (keep painted) = painted := by
  simp [sources, keep, List.flatMap_map, source]

@[simp] theorem results_keep (painted : Painted) : results (keep painted) = painted := by
  simp [results, keep, List.flatMap_map, result]

@[simp] theorem places_keep (before : List Char) (painted : Painted) (after : List Char) :
    places before (keep painted) after = [] := by
  induction painted generalizing before with
  | nil => rfl
  | cons stroke painted ih => exact ih _

theorem exists_keep_of_frozen {parts : List Part} {frozen rest : Painted}
    (isFrozen : ∀ stroke ∈ frozen, stroke.2 ≠ .outside)
    (filled : ∀ text body, wrapped text body ∈ parts → text ≠ [])
    (whole : sources parts = frozen ++ rest) :
    ∃ others, parts = keep frozen ++ others ∧ sources others = rest := by
  induction frozen generalizing parts with
  | nil => exact ⟨parts, rfl, whole⟩
  | cons stroke frozen ih =>
      cases parts with
      | nil => simp at whole
      | cons part parts =>
          cases part with
          | kept own =>
              simp only [sources_cons, source, List.cons_append, List.cons.injEq] at whole
              obtain ⟨rfl, later⟩ := whole
              obtain ⟨others, rfl, restEq⟩ := ih
                (fun other member => isFrozen other (by simp [member]))
                (fun text body member => filled text body (by simp [member])) later
              exact ⟨others, rfl, restEq⟩
          | wrapped text body =>
              obtain ⟨char, text, rfl⟩ := List.exists_cons_of_ne_nil (filled text body (by simp))
              simp only [sources_cons, source, Painted.outside_cons, List.cons_append,
                List.cons.injEq] at whole
              exact absurd (congrArg Prod.snd whole.1.symm) (isFrozen stroke (by simp))

theorem exists_keep_of_outside {parts : List Part} {text : List Char} {rest : Painted}
    (whole : results parts = Painted.outside text ++ rest) :
    ∃ others, parts = keep (Painted.outside text) ++ others ∧ results others = rest := by
  induction text generalizing parts with
  | nil => exact ⟨parts, rfl, whole⟩
  | cons char text ih =>
      cases parts with
      | nil => simp at whole
      | cons part parts =>
          cases part with
          | kept own =>
              simp only [results_cons, result, Painted.outside_cons, List.cons_append,
                List.cons.injEq] at whole
              obtain ⟨rfl, later⟩ := whole
              obtain ⟨others, rfl, restEq⟩ := ih later
              exact ⟨others, rfl, restEq⟩
          | wrapped text body =>
              simp [result, Region.dollars] at whole

/-- Parts can be cut where no place lies on both sides of the cut. -/
theorem exists_append {parts : List Part} {before after : List Char} {front back : Painted}
    (whole : sources parts = front ++ back)
    (clear : ∀ place ∈ places before parts after,
      place.before.length + place.text.length ≤ before.length + front.length ∨
        before.length + front.length ≤ place.before.length) :
    ∃ left right, parts = left ++ right ∧ sources left = front ∧ sources right = back := by
  induction parts generalizing before front with
  | nil =>
      obtain ⟨rfl, rfl⟩ := List.append_eq_nil_iff.mp whole.symm
      exact ⟨[], [], rfl, rfl, rfl⟩
  | cons part parts ih =>
      cases front with
      | nil => exact ⟨[], part :: parts, rfl, rfl, whole⟩
      | cons stroke front =>
          cases part with
          | kept own =>
              simp only [sources_cons, source, List.cons_append, List.nil_append,
                List.cons.injEq] at whole
              obtain ⟨rfl, whole⟩ := whole
              obtain ⟨left, right, rfl, frontEq, backEq⟩ := @ih (before ++ [own.1]) front whole
                fun place member => by
                  have apart := clear place member
                  simp only [List.length_append, List.length_cons, List.length_nil] at apart ⊢
                  omega
              exact ⟨kept own :: left, right, rfl, by simp [source, frontEq], backEq⟩
          | wrapped text body =>
              have own := clear _ (List.mem_cons_self ..)
              simp only [List.length_cons] at own
              rw [sources_cons, source] at whole
              rcases List.append_eq_append_iff.mp whole with ⟨rest, frontEq, later⟩ | ⟨rest, textEq, _⟩
              · have length := congrArg List.length frontEq
                simp only [Painted.outside, List.length_cons, List.length_append,
                  List.length_map] at length
                obtain ⟨left, right, rfl, restEq, backEq⟩ := @ih (before ++ text) rest later
                  fun place member => by
                    have apart := clear place (List.mem_cons_of_mem _ member)
                    simp only [List.length_append, List.length_cons] at apart ⊢
                    omega
                exact ⟨wrapped text body :: left, right, rfl,
                  by rw [sources_cons, restEq, frontEq, source], backEq⟩
              · -- The text is no longer than what stands before the cut.
                have length := congrArg List.length textEq
                simp only [Painted.outside, List.length_cons, List.length_append,
                  List.length_map] at length
                have isNil : rest = [] := List.length_eq_zero_iff.mp (by omega)
                subst isNil
                rw [List.append_nil] at textEq
                rw [textEq] at whole
                exact ⟨[wrapped text body], parts, rfl, by simp [source, textEq],
                  List.append_cancel_left whole⟩

theorem eq_keep_of_places {parts : List Part} {before after : List Char}
    (untouched : places before parts after = []) : parts = keep (sources parts) := by
  induction parts generalizing before with
  | nil => rfl
  | cons part parts ih =>
      cases part with
      | kept stroke =>
          have rest := ih untouched
          rw [sources_cons, source, List.singleton_append, keep, List.map_cons, ← keep, ← rest]
      | wrapped text body => simp [places] at untouched

theorem exists_keep_of_clear {parts : List Part} {after : List Char}
    {front stretch back : Painted} (whole : sources parts = front ++ (stretch ++ back))
    (clear : ∀ place ∈ places [] parts after, place.text ≠ [] ∧
      (place.before.length + place.text.length ≤ front.length ∨
        front.length + stretch.length ≤ place.before.length)) :
    ∃ left right, parts = left ++ (keep stretch ++ right) ∧ sources left = front := by
  obtain ⟨left, rest, rfl, leftEq, restEq⟩ := @exists_append _ [] after front _ whole
    fun place member => by
      have := (clear place member).2
      rw [List.length_nil]
      omega
  have length : (sources left).text.length = front.length := by simp [leftEq, Painted.text]
  rw [places_append, List.nil_append] at clear
  obtain ⟨middle, right, rfl, middleEq, _⟩ :=
    @exists_append _ (sources left).text after stretch back restEq fun place member => by
      have := (clear place (List.mem_append_right _ member)).2
      omega
  refine ⟨left, right, ?_, leftEq⟩
  suffices none : places (sources left).text middle ((sources right).text ++ after) = [] by
    rw [← middleEq, ← eq_keep_of_places none]
  rw [List.eq_nil_iff_forall_not_mem]
  intro place member
  obtain ⟨filled, apart⟩ := clear place (by
    rw [places_append]
    exact List.mem_append_right _ (List.mem_append_left _ member))
  obtain ⟨before, behind, textEq, beforeEq, _⟩ := text_of_mem_places member
  have inside := congrArg List.length textEq
  have start := congrArg List.length beforeEq
  have positive := List.length_pos_iff.mpr filled
  simp only [middleEq, Painted.text, List.length_map, List.length_append] at inside
  rw [List.length_append, length] at start
  omega

end Part

/-- The second text is the first one after the texts at some places have become inline math, each
place obeying the rule. -/
def Reworks (rule : Place → Prop) (before after : List Char) (old new : Painted) : Prop :=
  ∃ parts, Part.sources parts = old ∧ Part.results parts = new ∧
    ∀ place ∈ Part.places before parts after, rule place

namespace Reworks

variable {rule : Place → Prop} {before after : List Char}

theorem refl (painted : Painted) : Reworks rule before after painted painted :=
  ⟨Part.keep painted, by simp, by simp, by simp⟩

theorem single {text body : List Char} (own : rule ⟨before, text, body, after⟩) :
    Reworks rule before after (Painted.outside text) (Piece.paint [Region.dollars body]) := by
  refine ⟨[.wrapped text body], by simp [Part.source], by simp [Part.result], ?_⟩
  simpa [Part.places] using own

theorem append {first first' second second' : Painted}
    (left : Reworks rule before (second.text ++ after) first first')
    (right : Reworks rule (before ++ first.text) after second second') :
    Reworks rule before after (first ++ second) (first' ++ second') := by
  obtain ⟨parts, rfl, rfl, leftRule⟩ := left
  obtain ⟨others, rfl, rfl, rightRule⟩ := right
  refine ⟨parts ++ others, by simp, by simp, fun place member => ?_⟩
  rw [Part.places_append] at member
  rcases List.mem_append.mp member with inLeft | inRight
  · exact leftRule place inLeft
  · exact rightRule place inRight

theorem mono {weaker : Place → Prop} {old new : Painted} (reworks : Reworks rule before after old new)
    (weaken : ∀ place front back, old.text = front ++ (place.text ++ back) →
      place.before = before ++ front → place.after = back ++ after → rule place → weaker place) :
    Reworks weaker before after old new := by
  obtain ⟨parts, rfl, rfl, rules⟩ := reworks
  refine ⟨parts, rfl, rfl, fun place member => ?_⟩
  obtain ⟨front, back, textEq, beforeEq, afterEq⟩ := Part.text_of_mem_places member
  exact weaken place front back textEq beforeEq afterEq (rules place member)

end Reworks

def Wraps (replaces : Replacement) : Prop :=
  ∀ before text regions after, replaces before text regions after →
    ∃ body, regions = [Region.dollars body]

/-- A revision that makes inline math only, with the places it does so at. If the characters around
the text are those that it was given, the rule holds of the characters around each place. -/
theorem Revised.reworks {replaces : Replacement} {certain : Prop} {before after : Option Char}
    {old new : Painted} (revised : Revised replaces after before old new)
    (wraps : Wraps replaces) (pre post : List Char)
    (seen : certain → before = pre.getLast? ∧ after = post.head?) :
    Reworks (fun place => place.text ≠ [] ∧ ∃ before after,
      replaces before place.text [Region.dollars place.body] after ∧
        (certain → before = place.before.getLast? ∧ after = place.after.head?)) pre post old new := by
  induction revised generalizing pre with
  | nil => exact .refl _
  | @keep before char kind old new _ ih =>
      have rest := ih (pre ++ [char]) fun known => ⟨by simp, (seen known).2⟩
      have whole : Reworks _ pre post ([(char, kind)] ++ old) ([(char, kind)] ++ new) :=
        .append (.refl _) (by simpa using rest)
      exact whole
  | @replace before text regions old new filled replaced _ ih =>
      obtain ⟨body, rfl⟩ := wraps _ _ _ _ replaced
      have rest := ih (pre ++ text) fun known =>
        ⟨by rw [(seen known).1, Text.lastOr_getLast?], (seen known).2⟩
      refine .append (.single ⟨filled, before, _, replaced, fun known => ⟨(seen known).1, ?_⟩⟩)
        (by simpa using rest)
      rw [(seen known).2, Text.headOr_head?]

def SeenAs (char other : Option Char) : Prop :=
  other = some '$' ∨ char = other

theorem Part.seenAs_head (parts : List Part) {after after' : List Char}
    (filled : ∀ text body, Part.wrapped text body ∈ parts → text ≠ [])
    (stop : SeenAs after.head? after'.head?) :
    SeenAs ((sources parts).text ++ after).head? ((results parts).text ++ after').head? := by
  cases parts with
  | nil => exact stop
  | cons part parts =>
      cases part with
      | kept stroke => exact .inr rfl
      | wrapped text body => exact .inl rfl

/-- The parts of a pass and those of one after it. What the first pass wraps is frozen, so the second
one keeps it, and what the second one wraps was kept by the first. -/
inductive Part.Chain : List Part → List Part → Prop
  | nil : Chain [] []
  | kept (stroke) {parts others} : Chain parts others →
      Chain (kept stroke :: parts) (kept stroke :: others)
  | first (text body) {parts others} : Chain parts others →
      Chain (wrapped text body :: parts) (keep (Piece.paint [Region.dollars body]) ++ others)
  | second {text} (body) {parts others} : text ≠ [] → Chain parts others →
      Chain (keep (Painted.outside text) ++ parts) (wrapped text body :: others)

theorem Part.chain_of_sources {parts others : List Part}
    (filled : ∀ text body, wrapped text body ∈ others → text ≠ [])
    (whole : sources others = results parts) : Chain parts others := by
  -- A piece of one side can take up several parts of the other, so the induction is on both.
  induction size : parts.length + others.length using Nat.strong_induction_on
    generalizing parts others with
  | _ size ih =>
      cases parts with
      | nil =>
          cases others with
          | nil => exact .nil
          | cons other others =>
              cases other with
              | kept stroke => simp [source] at whole
              | wrapped text body =>
                  have textEq := congrArg Painted.text whole
                  simp only [sources_cons, source, Painted.text_append, Painted.text_outside,
                    results_nil, Painted.text_nil, List.append_eq_nil_iff] at textEq
                  exact absurd textEq.1 (filled text body (by simp))
      | cons part parts =>
          cases part with
          | wrapped text body =>
              have frozen : ∀ stroke ∈ Piece.paint [Region.dollars body], stroke.2 ≠ .outside :=
                Painted.frozen_paint (by simp [Region.dollars])
              rw [results_cons, result] at whole
              obtain ⟨rest, rfl, restEq⟩ := exists_keep_of_frozen frozen filled whole
              refine .first text body (ih _ ?_ (fun text body member => filled text body
                (List.mem_append_right _ member)) restEq rfl)
              simp only [← size, List.length_cons, List.length_append]
              omega
          | kept stroke =>
              cases others with
              | nil => simp [result] at whole
              | cons other others =>
                  have others_filled : ∀ text body, wrapped text body ∈ others → text ≠ [] :=
                    fun text body member => filled text body (List.mem_cons_of_mem _ member)
                  cases other with
                  | kept stroke' =>
                      simp only [sources_cons, source, results_cons, result, List.cons_append,
                        List.nil_append, List.cons.injEq] at whole
                      obtain ⟨rfl, restEq⟩ := whole
                      refine .kept stroke' (ih _ ?_ others_filled restEq rfl)
                      simp only [← size, List.length_cons]
                      omega
                  | wrapped text body =>
                      rw [sources_cons, source] at whole
                      obtain ⟨rest, partsEq, restEq⟩ := exists_keep_of_outside whole.symm
                      rw [partsEq] at size ⊢
                      refine .second body (filled text body (by simp))
                        (ih _ ?_ others_filled restEq.symm rfl)
                      simp only [← size, List.length_cons, List.length_append]
                      omega

theorem Part.Chain.sources_eq {parts others : List Part} (chain : Chain parts others) :
    sources others = results parts := by
  induction chain with
  | nil => rfl
  | kept stroke _ ih => rw [sources_cons, results_cons, ih, source, result]
  | first text body _ ih => rw [sources_append, sources_keep, results_cons, ih, result]
  | second body _ _ ih => rw [sources_cons, results_append, results_keep, ih, source]

/-- The replacements of two passes are those of one, if the second never replaces next to a dollar
what it would not replace there without it. -/
theorem Reworks.trans {rule : Place → Prop} {before before' after after' : List Char}
    {old middle new : Painted} (filled : ∀ place, rule place → place.text ≠ [])
    (stable : ∀ place pre post, SeenAs pre.getLast? place.before.getLast? →
      SeenAs post.head? place.after.head? → rule place → rule ⟨pre, place.text, place.body, post⟩)
    (start : SeenAs before.getLast? before'.getLast?) (stop : SeenAs after.head? after'.head?)
    (first : Reworks rule before after old middle)
    (second : Reworks rule before' after' middle new) : Reworks rule before after old new := by
  obtain ⟨parts, rfl, rfl, rules⟩ := first
  obtain ⟨others, whole, rfl, rules'⟩ := second
  have chain := Part.chain_of_sources (Part.filled_of_rule filled rules') whole
  clear whole
  induction chain generalizing before before' with
  | nil => exact .refl _
  | kept stroke _ ih =>
      rw [Part.sources_cons, Part.source, Part.results_cons, Part.result]
      exact .append (.refl _) (@ih (before ++ [stroke.1]) (before' ++ [stroke.1])
        (.inr (by simp)) rules rules')
  | @first text body parts others _ ih =>
      have own := rules _ (List.mem_cons_self ..)
      have later := @ih (before ++ text)
        (before' ++ Painted.text (Piece.paint [Region.dollars body]))
        (.inl (by simp [Region.dollars, List.getLast?_append, List.getLast?_cons]))
        (fun place member => rules place (List.mem_cons_of_mem _ member))
        (fun place member => rules' place (by
          rw [Part.places_append, Part.places_keep, Part.sources_keep]
          exact member))
      rw [Part.sources_cons, Part.source, Part.results_append, Part.results_keep]
      exact .append (.single own) (by rwa [Painted.text_outside])
  | @second text body parts others nonempty chain ih =>
      have own := rules' _ (List.mem_cons_self ..)
      have restRules : ∀ place ∈ Part.places (before ++ text) parts after, rule place :=
        fun place member => rules place (by
          rw [Part.places_append, Part.places_keep, Part.sources_keep, Painted.text_outside]
          exact member)
      have later := @ih (before ++ text) (before' ++ text)
        (.inr (by simp [List.getLast?_append_of_ne_nil _ nonempty])) restRules
        (fun place member => rules' place (List.mem_cons_of_mem _ member))
      rw [Part.sources_append, Part.sources_keep, Part.results_cons, Part.result]
      -- The second pass saw the results of the first behind the place, where now stand the sources.
      refine .append (.single (stable _ _ _ start ?_ own)) (by rwa [Painted.text_outside])
      dsimp only
      rw [chain.sources_eq]
      exact Part.seenAs_head parts (Part.filled_of_rule filled restRules) stop

def Place.Avoids (number : Nat) (place : Place) : Prop :=
  number < place.before.count '\n' ∨ (place.before ++ place.text).count '\n' < number

def Place.KeepsFeeds (place : Place) : Prop :=
  place.body.count '\n' = place.text.count '\n'

theorem Part.onLine_results {parts : List Part} (before : List Char) {after : List Char}
    {number : Nat} (clear : ∀ place ∈ places before parts after,
      place.KeepsFeeds ∧ place.Avoids number) :
    Painted.onLine number (before.count '\n') (results parts) =
      Painted.onLine number (before.count '\n') (sources parts) := by
  induction parts generalizing before with
  | nil => rfl
  | cons part parts ih =>
      rw [results_cons, sources_cons, Painted.onLine_append, Painted.onLine_append]
      cases part with
      | kept stroke =>
          have rest := ih (before ++ [stroke.1]) clear
          rw [List.count_append] at rest
          simpa [source, result, Painted.text] using rest
      | wrapped text body =>
          obtain ⟨count, apart⟩ := clear _ (List.mem_cons_self ..)
          rw [Place.KeepsFeeds] at count
          rw [Place.Avoids, List.count_append] at apart
          have rest := ih (before ++ text)
            fun place member => clear place (List.mem_cons_of_mem _ member)
          rw [List.count_append] at rest
          have same : (Painted.text (result (wrapped text body))).count '\n' = text.count '\n' := by
            simp [result, Region.dollars, ← count]
          have old : Painted.onLine number (before.count '\n') (Painted.outside text) = [] :=
            Painted.onLine_eq_nil (by rwa [Painted.text_outside])
          have new : Painted.onLine number (before.count '\n') (result (wrapped text body)) = [] :=
            Painted.onLine_eq_nil (by rwa [same])
          rw [same, source, Painted.text_outside, old, new, rest]

theorem Part.count_feed_results {parts : List Part} {before after : List Char}
    (keeps : ∀ place ∈ places before parts after, place.KeepsFeeds) :
    (results parts).text.count '\n' = (sources parts).text.count '\n' := by
  induction parts generalizing before with
  | nil => rfl
  | cons part parts ih =>
      rw [results_cons, sources_cons, Painted.text_append, Painted.text_append, List.count_append,
        List.count_append]
      cases part with
      | kept stroke => rw [@ih (before ++ [stroke.1]) keeps, result, source]
      | wrapped text body =>
          have count := keeps _ (List.mem_cons_self ..)
          rw [Place.KeepsFeeds] at count
          rw [@ih (before ++ text) fun place member => keeps place (List.mem_cons_of_mem _ member)]
          simp [result, source, Region.dollars, ← count]

namespace Reworks

variable {rule : Place → Prop} {old new : Painted}

theorem onLine_eq {number : Nat} (reworks : Reworks rule [] [] old new)
    (clear : ∀ place, rule place → place.KeepsFeeds ∧ place.Avoids number) :
    Painted.onLine number 0 new = Painted.onLine number 0 old := by
  obtain ⟨parts, rfl, rfl, rules⟩ := reworks
  exact Part.onLine_results [] fun place member => clear place (rules place member)

theorem count_feed (reworks : Reworks rule [] [] old new)
    (keeps : ∀ place, rule place → place.KeepsFeeds) :
    new.text.count '\n' = old.text.count '\n' := by
  obtain ⟨parts, rfl, rfl, rules⟩ := reworks
  exact Part.count_feed_results fun place member => keeps place (rules place member)

end Reworks

end DollarMath
