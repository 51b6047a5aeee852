import DollarMath.Batch.Folder
import DollarMath.Proofs.Files.Disk

/-!
What is written to a file is read from it again, and making folders leaves all files as they are.
-/

namespace DollarMath

namespace Node

def Extends (first second : Node) : Prop :=
  ∀ place entries, first.at? place = some (folder entries) →
    ∃ others, second.at? place = some (folder others) ∧
      ∀ name, (entries.lookup name).isSome → (others.lookup name).isSome

variable {root new : Node} {place : List String} {name : String} {entries : List (String × Node)}

theorem exists_child {first : String} {rest : List String} {node : Node}
    (found : root.at? (first :: rest) = some node) :
    ∃ top child, root = folder top ∧ top.lookup first = some child ∧ child.at? rest = some node := by
  obtain ⟨child, inside, later⟩ := Option.bind_eq_some_iff.mp found
  cases root with
  | file content => simp [Node.entries] at inside
  | folder top => exact ⟨top, child, rfl, inside, later⟩

theorem at?_putEntry_cons (name first : String) (node : Node) (top : List (String × Node))
    (rest : List String) :
    (folder (putEntry name node top)).at? (first :: rest) =
      if first = name then node.at? rest else (folder top).at? (first :: rest) := by
  rw [at?, Node.entries, lookup_putEntry]
  split
  next => rfl
  next => rfl

theorem put_singleton (new : Node) (name : String) (entries : List (String × Node)) :
    put new [name] (folder entries) = folder (putEntry name new entries) := rfl

theorem at?_of_leaf (leaf : new.entries = []) (name : String) (names : List String) :
    new.at? (name :: names) = none := by
  rw [at?, leaf]
  rfl

theorem at?_of_free (free : ∀ others, entries.lookup name ≠ some (folder others)) (next : String)
    (names : List String) : (folder entries).at? (name :: next :: names) = none := by
  rw [at?, Node.entries]
  cases found : entries.lookup name with
  | none => rfl
  | some node =>
      cases node with
      | file content => rfl
      | folder others => exact absurd found (free others)

theorem extends_putEntry (name : String) (new : Node) (entries : List (String × Node))
    (other : String) (there : (entries.lookup other).isSome) :
    ((putEntry name new entries).lookup other).isSome := by
  rw [lookup_putEntry]
  split
  next => rfl
  next => exact there

section Put

variable (isFolder : root.at? place = some (folder entries))
include isFolder

theorem at?_put_concat (new : Node) (name : String) :
    (put new (place ++ [name]) root).at? (place ++ [name]) = some new := by
  induction place generalizing root with
  | nil =>
      obtain rfl := Option.some.inj isFolder
      rw [List.nil_append, put_singleton, at?_putEntry_cons, if_pos rfl, at?]
  | cons first rest ih =>
      obtain ⟨top, child, rfl, found, later⟩ := exists_child isFolder
      rw [List.cons_append, put_cons found, at?_putEntry_cons, if_pos rfl, ih later]

variable (free : ∀ others, entries.lookup name ≠ some (folder others))
include free

/-- A node without entries that is put where no folder is changes the bytes in its place only. -/
theorem content?_put_concat (leaf : new.entries = []) (other : List String) :
    ((put new (place ++ [name]) root).at? other).bind content? =
      if other = place ++ [name] then new.content? else (root.at? other).bind content? := by
  induction place generalizing root other with
  | nil =>
      obtain rfl := Option.some.inj isFolder
      rw [List.nil_append, put_singleton]
      cases other with
      | nil => rfl
      | cons first rest =>
          rw [at?_putEntry_cons]
          by_cases here : first = name
          · subst here
            cases rest with
            | nil => simp [at?]
            | cons next others =>
                rw [if_pos rfl, at?_of_leaf leaf, at?_of_free free]
                simp
          · simp [here]
  | cons first rest ih =>
      obtain ⟨top, child, rfl, found, later⟩ := exists_child isFolder
      rw [List.cons_append, put_cons found]
      cases other with
      | nil => rfl
      | cons next others =>
          rw [at?_putEntry_cons]
          by_cases here : next = first
          · rw [if_pos here, ih later, here, at?, Node.entries, found]
            simp
          · simp [here]

theorem extends_put_concat (new : Node) : Extends root (put new (place ++ [name]) root) := by
  intro other held reached
  induction place generalizing root other with
  | nil =>
      obtain rfl := Option.some.inj isFolder
      rw [List.nil_append, put_singleton]
      cases other with
      | nil =>
          obtain rfl := folder.inj (Option.some.inj reached)
          exact ⟨_, rfl, extends_putEntry name new _⟩
      | cons first rest =>
          rw [at?_putEntry_cons]
          split
          next here =>
            subst here
            cases rest with
            | nil =>
                obtain ⟨_, found, same⟩ := Option.bind_eq_some_iff.mp reached
                obtain rfl := Option.some.inj same
                exact absurd found (free held)
            | cons next others => simp [at?_of_free free] at reached
          next => exact ⟨held, reached, fun _ there => there⟩
  | cons first rest ih =>
      obtain ⟨top, child, rfl, found, later⟩ := exists_child isFolder
      rw [List.cons_append, put_cons found]
      cases other with
      | nil =>
          obtain rfl := folder.inj (Option.some.inj reached)
          exact ⟨_, rfl, extends_putEntry first _ _⟩
      | cons next others =>
          rw [at?_putEntry_cons]
          split
          next here =>
            subst here
            rw [at?, Node.entries, found] at reached
            exact ih later others reached
          next => exact ⟨held, reached, fun _ there => there⟩

end Put

end Node

namespace Disk

variable {disk after : Disk} {path : Path} {content : Bytes}

theorem walk_of_extends {first second : Node} (grows : first.Extends second)
    {place reached names : List String} (walked : walk first place names = .ok reached) :
    walk second place names = .ok reached := by
  induction names generalizing place with
  | nil => exact walked
  | cons name names ih =>
      rw [walk] at walked ⊢
      split at walked
      next => simp at walked
      next => simp at walked
      next entries isFolder =>
        obtain ⟨others, again, lookups⟩ := grows place entries isFolder
        rw [again]
        dsimp only
        split at walked
        next above => rw [if_pos above, ih walked]
        next notAbove =>
          split at walked
          next => simp at walked
          next short =>
            split at walked
            next there => rw [if_neg notAbove, if_neg short, if_pos (lookups name there), ih walked]
            next => simp at walked

theorem walk_singleton {root node : Node} {place : List String} {name : String}
    {entries : List (String × Node)} (isFolder : root.at? place = some (.folder entries))
    (notAbove : name ≠ "..") (short : isNameTooLong name = false)
    (found : root.at? (place ++ [name]) = some node) :
    walk root place [name] = .ok (place ++ [name]) := by
  rw [Node.at?_append, isFolder, Option.bind_some] at found
  obtain ⟨child, there, _⟩ := Option.bind_eq_some_iff.mp found
  replace there : entries.lookup name = some child := there
  simp [walk, isFolder, notAbove, short, there]

theorem target_eq_ok {place : List String} {name : String}
    (targeted : disk.target path = .ok (some (place, name))) :
    path.names = path.names.dropLast ++ [name] ∧ path.fault? = none ∧
      walk disk.root (disk.start path) path.names.dropLast = .ok place ∧
      name ≠ ".." ∧ isNameTooLong name = false ∧
      ∃ entries, disk.root.at? place = some (.folder entries) := by
  unfold target at targeted
  split at targeted
  next => simp [fail] at targeted
  next => simp at targeted
  next walked last =>
    split at targeted
    next entries isFolder =>
      split at targeted
      next => simp at targeted
      next notAbove =>
        split at targeted
        next => simp [fail] at targeted
        next short =>
          obtain ⟨rfl, rfl⟩ : _ = place ∧ _ = name := by simpa using targeted
          unfold follow at walked
          split at walked
          next => simp at walked
          next unnamed =>
            obtain ⟨front, names⟩ := List.getLast?_eq_some_iff.mp last
            refine ⟨?_, unnamed, walked, notAbove, by simpa using short, entries, isFolder⟩
            rw [names, List.dropLast_concat]
    next => simp [fail] at targeted

theorem lookup_ne_folder {root : Node} {place : List String} {name : String}
    {entries : List (String × Node)} (isFolder : root.at? place = some (.folder entries))
    (free : ∀ others, root.at? (place ++ [name]) ≠ some (.folder others)) :
    ∀ others, entries.lookup name ≠ some (.folder others) := by
  intro others found
  refine free others ?_
  rw [Node.at?_append, isFolder, Option.bind_some, Node.at?, Node.entries, found]
  rfl

theorem read_of_write (wrote : disk.write path content = .ok after) :
    after.read path = .ok content ∧ (after.node? path).isSome := by
  unfold write at wrote
  split at wrote
  next => simp at wrote
  next => simp [fail] at wrote
  next place name targeted =>
    obtain ⟨names, faultless, walked, notAbove, short, entries, isFolder⟩ := target_eq_ok targeted
    split at wrote
    next => simp [fail] at wrote
    next other =>
      obtain rfl := Except.ok.inj wrote
      have free := lookup_ne_folder isFolder fun others => other others
      have grows := Node.extends_put_concat isFolder free (.file content)
      have found := Node.at?_put_concat isFolder (.file content) name
      obtain ⟨others, again, _⟩ := grows place entries isFolder
      have located : locate { disk with root := Node.put (.file content) (place ++ [name]) disk.root }
          path = .ok (place ++ [name]) := by
        unfold locate follow
        rw [faultless]
        dsimp only
        rw [names, walk_append]
        refine (congrArg (Except.bind · _) (walk_of_extends grows walked)).trans ?_
        exact walk_singleton again notAbove short found
      constructor
      · rw [read, located]
        dsimp only
        rw [found]
      · rw [node?, located]
        dsimp only
        rw [found]
        rfl

theorem content?_makeFolder (made : disk.makeFolder path = .ok after) (place : List String) :
    after.content? place = disk.content? place := by
  unfold makeFolder at made
  split at made
  next => simp at made
  next => simp [fail] at made
  next parent name targeted =>
    obtain ⟨_, _, _, _, _, entries, isFolder⟩ := target_eq_ok targeted
    split at made
    next => simp [fail] at made
    next unnamed =>
      obtain rfl := Except.ok.inj made
      have free := lookup_ne_folder isFolder fun others found => by rw [unnamed] at found; cases found
      refine (Node.content?_put_concat isFolder free rfl place).trans ?_
      split
      next here => rw [content?, here, unnamed]; rfl
      next => rfl

theorem content?_ensureFolder (made : disk.ensureFolder path = .ok after) (place : List String) :
    after.content? place = disk.content? place := by
  unfold ensureFolder at made
  split at made
  next next isMade =>
    obtain rfl := Except.ok.inj made
    exact content?_makeFolder isMade place
  next =>
    split at made
    next => rw [Except.ok.inj made]
    next => simp at made

/-- However far the folders on the way can be made, the files stay as they are. -/
theorem content?_ensureFoldersFrom (disk : Disk) (start : PathStart) (names place : List String) :
    (disk.ensureFoldersFrom start names).1.content? place = disk.content? place := by
  induction names with
  | nil => rfl
  | cons name outer ih =>
      rw [ensureFoldersFrom]
      split
      next made isMade => exact content?_makeFolder isMade place
      next =>
        split
        next outside isOutside =>
          rw [isOutside] at ih
          split
          next made isMade => exact (content?_ensureFolder isMade place).trans ih
          next => exact ih
        next => exact ih
      next => split <;> rfl

theorem content?_ensureFolders (disk : Disk) (path : Path) (place : List String) :
    (disk.ensureFolders path).1.content? place = disk.content? place :=
  content?_ensureFoldersFrom disk path.start path.names.reverse place

end Disk

end DollarMath
