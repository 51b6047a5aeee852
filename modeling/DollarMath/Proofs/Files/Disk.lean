import DollarMath.Files.Disk
import Mathlib.Data.List.Basic

/-!
Writing a file that is there changes its bytes and nothing else of a tree.
-/

namespace DollarMath

namespace Node

def content? : Node → Option Bytes
  | file content => some content
  | folder _ => none

mutual

def outline : Node → Node
  | file _ => file []
  | folder entries => folder (outlines entries)

def outlines : List (String × Node) → List (String × Node)
  | [] => []
  | entry :: rest => outlineEntry entry :: outlines rest

def outlineEntry : String × Node → String × Node
  | (name, node) => (name, outline node)

end

@[simp] theorem outlines_cons (name : String) (node : Node) (rest : List (String × Node)) :
    outlines ((name, node) :: rest) = (name, node.outline) :: outlines rest := rfl

theorem lookup_cons_eq (entry : String × Node) (rest : List (String × Node)) (name : String) :
    (entry :: rest).lookup name = if name = entry.1 then some entry.2 else rest.lookup name := by
  rw [List.lookup_cons]
  by_cases same : name = entry.1
  · simp [same]
  · have differs : (name == entry.1) = false := beq_eq_false_iff_ne.mpr same
    rw [differs, if_neg same]

theorem lookup_outlines (name : String) (entries : List (String × Node)) :
    (outlines entries).lookup name = (entries.lookup name).map outline := by
  induction entries with
  | nil => rfl
  | cons entry rest ih =>
      obtain ⟨other, node⟩ := entry
      rw [outlines_cons, lookup_cons_eq, lookup_cons_eq, ih]
      split <;> rfl

theorem entries_outline (node : Node) : node.outline.entries = outlines node.entries := by
  cases node <;> rfl

theorem at?_outline (node : Node) (names : List String) :
    node.outline.at? names = (node.at? names).map outline := by
  induction names generalizing node with
  | nil => rfl
  | cons name names ih =>
      rw [at?, at?, entries_outline, lookup_outlines]
      cases node.entries.lookup name with
      | none => rfl
      | some child => exact ih child

theorem at?_append (node : Node) (first second : List String) :
    node.at? (first ++ second) = (node.at? first).bind fun inner => inner.at? second := by
  induction first generalizing node with
  | nil => rfl
  | cons name first ih =>
      rw [List.cons_append, at?, at?]
      cases node.entries.lookup name with
      | none => rfl
      | some child => exact ih child

theorem lookup_putEntry (name : String) (node : Node) (entries : List (String × Node))
    (other : String) :
    (putEntry name node entries).lookup other =
      if other = name then some node else entries.lookup other := by
  induction entries with
  | nil => exact lookup_cons_eq (name, node) [] other
  | cons entry rest ih =>
      rw [putEntry]
      by_cases here : entry.1 = name
      · rw [if_pos here, lookup_cons_eq, lookup_cons_eq, here]
        by_cases same : other = name <;> simp [same]
      · rw [if_neg here, lookup_cons_eq, lookup_cons_eq, ih]
        by_cases same : other = name
        · rw [if_neg fun equal => here (equal.symm.trans same), if_pos same, if_pos same]
        · simp [same]

theorem outlines_putEntry {name : String} {node child : Node} {entries : List (String × Node)}
    (found : entries.lookup name = some child) (same : node.outline = child.outline) :
    outlines (putEntry name node entries) = outlines entries := by
  induction entries with
  | nil => simp at found
  | cons entry rest ih =>
      obtain ⟨other, own⟩ := entry
      rw [lookup_cons_eq] at found
      rw [putEntry]
      by_cases here : other = name
      · rw [if_pos here.symm, Option.some.injEq] at found
        rw [if_pos here, outlines_cons, outlines_cons, same, here, ← found]
      · rw [if_neg fun equal => here equal.symm] at found
        rw [if_neg here, outlines_cons, outlines_cons, ih found]

theorem put_cons {new child : Node} {name : String} {names : List String}
    {entries : List (String × Node)} (own : entries.lookup name = some child) :
    put new (name :: names) (folder entries) =
      folder (putEntry name (put new names child) entries) := by
  rw [put]
  simp only [Node.entries, own, Option.getD_some]

section Put

variable {node : Node} {names : List String} {old : Bytes}

theorem outline_put (found : node.at? names = some (file old)) (new : Bytes) :
    (put (file new) names node).outline = node.outline := by
  induction names generalizing node with
  | nil =>
      obtain rfl := Option.some.inj found
      rfl
  | cons name names ih =>
      obtain ⟨child, inside, later⟩ := Option.bind_eq_some_iff.mp found
      cases node with
      | file content => simp [entries] at inside
      | folder entries =>
          have own : entries.lookup name = some child := inside
          rw [put_cons own, outline, outline, outlines_putEntry own (ih later)]

/-- A file that is put is found in its place, and all other files as before. -/
theorem content?_put (found : node.at? names = some (file old)) (new : Bytes)
    (place : List String) :
    ((put (file new) names node).at? place).bind content? =
      if place = names then some new else (node.at? place).bind content? := by
  induction names generalizing node place with
  | nil =>
      obtain rfl := Option.some.inj found
      cases place <;> rfl
  | cons name names ih =>
      obtain ⟨child, inside, later⟩ := Option.bind_eq_some_iff.mp found
      cases node with
      | file content => simp [entries] at inside
      | folder entries =>
          have own : entries.lookup name = some child := inside
          rw [put_cons own]
          cases place with
          | nil => rfl
          | cons first place =>
              rw [at?, at?, Node.entries, Node.entries, lookup_putEntry]
              by_cases same : first = name
              · subst same
                rw [if_pos rfl, own, Option.bind_some, Option.bind_some, ih later]
                simp
              · rw [if_neg same, if_neg (by simp [same])]

end Put

end Node

namespace Disk

def content? (disk : Disk) (place : List String) : Option Bytes :=
  (disk.root.at? place).bind Node.content?

/-- The parts of a disk that do not depend on the bytes of its files. -/
structure SameTree (first second : Disk) : Prop where
  outline : first.root.outline = second.root.outline
  folder : first.folder = second.folder

theorem SameTree.refl (disk : Disk) : SameTree disk disk := ⟨rfl, rfl⟩

/-- Trees that differ in the bytes of their files only are walked alike. -/
theorem walk_congr {first second : Node} (same : first.outline = second.outline)
    (place names : List String) : walk first place names = walk second place names := by
  induction names generalizing place with
  | nil => rw [walk, walk]
  | cons name names ih =>
      have reached : (first.at? place).map Node.outline = (second.at? place).map Node.outline := by
        rw [← Node.at?_outline, ← Node.at?_outline, same]
      rw [walk, walk]
      cases atFirst : first.at? place with
      | none =>
          rw [atFirst] at reached
          rw [Option.map_eq_none_iff.mp reached.symm]
      | some node =>
          obtain ⟨other, atSecond, outline⟩ := Option.map_eq_some_iff.mp (atFirst ▸ reached).symm
          rw [atSecond]
          cases node with
          | file content =>
              cases other with
              | file _ => rfl
              | folder _ => simp [Node.outline] at outline
          | folder entries =>
              cases other with
              | file _ => simp [Node.outline] at outline
              | folder others =>
                  have names : Node.outlines others = Node.outlines entries := by
                    simpa [Node.outline] using outline
                  have looked : (entries.lookup name).isSome = (others.lookup name).isSome := by
                    rw [← Option.isSome_map (f := Node.outline), ← Node.lookup_outlines, ← names,
                      Node.lookup_outlines, Option.isSome_map]
                  simp only [ih, looked]

theorem SameTree.locate {first second : Disk} (same : SameTree first second) (path : Path) :
    first.locate path = second.locate path := by
  unfold Disk.locate follow start
  rw [same.folder]
  cases path.fault? with
  | none => exact walk_congr same.outline _ _
  | some cause => rfl

theorem SameTree.isFolder {first second : Disk} (same : SameTree first second) (path : Path) :
    first.isFolder path = second.isFolder path := by
  have byOutline (node? : Option Node) :
      node?.any Node.isFolder = (node?.map Node.outline).any Node.isFolder := by
    cases node? with
    | none => rfl
    | some node => cases node <;> rfl
  unfold Disk.isFolder node?
  rw [same.locate]
  cases second.locate path with
  | error cause => rfl
  | ok place =>
      dsimp only
      rw [byOutline, byOutline (second.root.at? place), ← Node.at?_outline, ← Node.at?_outline,
        same.outline]

theorem walk_append (root : Node) (place first second : List String) :
    walk root place (first ++ second) =
      (walk root place first).bind fun reached => walk root reached second := by
  induction first generalizing place with
  | nil =>
      rw [List.nil_append, walk]
      rfl
  | cons name first ih =>
      rw [List.cons_append, walk, walk]
      cases root.at? place with
      | none => rfl
      | some node =>
          cases node with
          | file content => rfl
          | folder entries =>
              dsimp only
              rw [ih, ih]
              split
              next => rfl
              next =>
                split
                next => rfl
                next => split <;> rfl

theorem content?_eq_some {disk : Disk} {place : List String} {old : Bytes}
    (found : disk.content? place = some old) : disk.root.at? place = some (.file old) := by
  obtain ⟨node, reached, content⟩ := Option.bind_eq_some_iff.mp found
  cases node with
  | file bytes => rw [reached, ← Option.some.inj content]
  | folder entries => simp [Node.content?] at content

theorem at?_dropLast {root : Node} {place : List String} {entries : List (String × Node)}
    (found : root.at? place = some (.folder entries)) :
    ∃ others, root.at? place.dropLast = some (.folder others) := by
  rcases List.eq_nil_or_concat' place with rfl | ⟨front, last, rfl⟩
  · exact ⟨entries, found⟩
  · rw [Node.at?_append] at found
    rw [List.dropLast_concat]
    obtain ⟨node, reached, later⟩ := Option.bind_eq_some_iff.mp found
    cases node with
    | file content => simp [Node.at?, Node.entries] at later
    | folder others => exact ⟨others, reached⟩

theorem walk_last {root : Node} {parent place : List String} {last : String} {old : Bytes}
    (walked : walk root parent [last] = .ok place) (found : root.at? place = some (.file old)) :
    place = parent ++ [last] ∧ last ≠ ".." ∧ isNameTooLong last = false ∧
      ∃ entries, root.at? parent = some (.folder entries) := by
  rw [walk] at walked
  split at walked
  next => simp at walked
  next => simp at walked
  next entries reached =>
    split at walked
    next above =>
      rw [walk] at walked
      obtain rfl := Except.ok.inj walked
      obtain ⟨others, isFolder⟩ := at?_dropLast reached
      simp [isFolder] at found
    next notAbove =>
      split at walked
      next => simp at walked
      next short =>
        split at walked
        next =>
          rw [walk] at walked
          exact ⟨(Except.ok.inj walked).symm, notAbove, by simpa using short, entries, reached⟩
        next => simp at walked

theorem locate_of_isFolder {disk : Disk} {path : Path} (isFolder : disk.isFolder path = true) :
    ∃ place entries, disk.locate path = .ok place ∧
      disk.root.at? place = some (.folder entries) := by
  unfold Disk.isFolder node? at isFolder
  split at isFolder
  next place located =>
    cases reached : disk.root.at? place with
    | none => simp [reached] at isFolder
    | some node =>
        cases node with
        | file content => simp [reached, Node.isFolder] at isFolder
        | folder entries => exact ⟨place, entries, located, reached⟩
  next => simp at isFolder

theorem names_ne_nil {disk : Disk} {folder : Path} (isFolder : disk.isFolder folder = true)
    {path : Path} {place : List String} {bytes : Bytes}
    (located : disk.locate (folder.join path) = .ok place)
    (found : disk.content? place = some bytes) : (folder.join path).names ≠ [] := by
  intro isNil
  obtain ⟨base, entries, located', reached⟩ := locate_of_isFolder isFolder
  have isFile := content?_eq_some found
  unfold Path.join at isNil located
  split at isNil
  next absolute =>
    rw [if_pos absolute] at located
    have atRoot : place = [] := by
      unfold locate follow start at located
      rw [isNil, if_pos absolute] at located
      split at located
      next => simp at located
      next =>
        rw [walk] at located
        exact (Except.ok.inj located).symm
    subst atRoot
    have root : disk.root = .file bytes := Option.some.inj isFile
    rw [root] at reached
    cases base <;> simp [Node.at?, Node.entries] at reached
  next relative =>
    rw [if_neg relative] at located
    obtain ⟨noFolder, noPath⟩ := List.append_eq_nil_iff.mp isNil
    have same : folder = ⟨folder.start, folder.names ++ path.names⟩ := by
      rw [noPath, List.append_nil]
    rw [← same, located'] at located
    obtain rfl := Except.ok.inj located
    simp [reached] at isFile

/-- A file that can be read by a path with names can be written by it, in the same place. -/
theorem write_of_content {disk : Disk} {path : Path} {place : List String} {old : Bytes}
    (located : disk.locate path = .ok place) (found : disk.content? place = some old)
    (named : path.names ≠ []) (new : Bytes) :
    disk.write path new = .ok { disk with root := Node.put (.file new) place disk.root } := by
  have isFile := content?_eq_some found
  unfold locate follow at located
  split at located
  next => simp at located
  next isNil =>
    have whole := List.dropLast_concat_getLast named
    have final := List.getLast?_eq_some_getLast named
    generalize path.names.getLast named = last at whole final
    rw [← whole, walk_append] at located
    obtain ⟨parent, walked, step⟩ : ∃ parent,
        walk disk.root (disk.start path) path.names.dropLast = .ok parent ∧
          walk disk.root parent [last] = .ok place := by
      cases walked : walk disk.root (disk.start path) path.names.dropLast with
      | error cause => simp [walked, Except.bind] at located
      | ok parent => exact ⟨parent, rfl, by simpa [walked, Except.bind] using located⟩
    obtain ⟨rfl, notAbove, short, entries, isFolder⟩ := walk_last step isFile
    have targeted : disk.target path = .ok (some (parent, last)) := by
      unfold target follow
      simp [isNil, walked, final, isFolder, notAbove, short]
    unfold write
    rw [targeted]
    simp [isFile]

end Disk

end DollarMath
