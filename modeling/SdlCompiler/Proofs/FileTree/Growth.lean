import SdlCompiler.FileTree.Access
import SdlCompiler.Proofs.Outcome

/-!
# Trees that grow

Directories are made where there is nothing. So a tree in which directories were made has all that
was there before, the links included, and besides it directories only (`Grows`), whether or not all
of the directories that were asked for could be made.
-/

namespace SdlCompiler.FileTree

open Outcome

variable {tree tree' : FileTree} {path : String}

/-! ## Entries and links -/

theorem lookup_setIn (place p : Place) (entry : Entry) (entries : List (Place × Entry)) :
    (setIn place entry entries).lookup p =
      if p = place then some entry else entries.lookup p := by
  induction entries with
  | nil =>
    by_cases same : p = place
    · simp [setIn, same]
    · rw [setIn, List.lookup_cons, beq_false_of_ne same, if_neg same]
  | cons first rest ih =>
    obtain ⟨q, e⟩ := first
    by_cases here : q = place
    · subst here
      rw [setIn, if_pos rfl]
      by_cases same : p = q
      · simp [same]
      · rw [List.lookup_cons, List.lookup_cons, beq_false_of_ne same, if_neg same]
    · rw [setIn, if_neg here, List.lookup_cons, List.lookup_cons, ih]
      by_cases same : p = q
      · subst same
        simp [here]
      · rw [beq_false_of_ne same]

theorem lookup_filter_ne (place p : Place) (links : List (Place × String)) :
    (links.filter (·.1 ≠ place)).lookup p = if p = place then none else links.lookup p := by
  induction links with
  | nil => simp
  | cons first rest ih =>
    obtain ⟨q, path⟩ := first
    by_cases here : q = place
    · subst here
      rw [List.filter_cons_of_neg (by simp), ih, List.lookup_cons]
      by_cases same : p = q
      · rw [if_pos same, if_pos same]
      · rw [if_neg same, if_neg same, beq_false_of_ne same]
    · rw [List.filter_cons_of_pos (by simpa using here), List.lookup_cons, List.lookup_cons, ih]
      by_cases same : p = q
      · subst same
        simp [here]
      · rw [beq_false_of_ne same]

theorem link?_set (place : Place) (entry : Entry) (p : Place) :
    FileTree.link? (tree.set place entry) p = if p = place then none else tree.link? p :=
  lookup_filter_ne place p tree.links

/-- What is set where there is no link leaves all links. -/
theorem link?_set_eq {place : Place} (unlinked : tree.link? place = none) (entry : Entry) :
    FileTree.link? (tree.set place entry) = tree.link? := by
  funext p
  rw [link?_set]
  split
  · next same => rw [same, unlinked]
  · rfl

/-- The root is always a directory, so it cannot be set. -/
theorem entry?_set {place : Place} (below : place ≠ []) (entry : Entry) (p : Place) :
    FileTree.entry? (tree.set place entry) p =
      if p = place then some entry else tree.entry? p := by
  unfold entry?
  rw [link?_set, set, lookup_setIn]
  by_cases same : p = place
  · subst same
    simp [below]
  · simp only [if_neg same]

theorem entry?_set_self {place : Place} (below : place ≠ []) (entry : Entry) :
    FileTree.entry? (tree.set place entry) place = some entry := by
  rw [entry?_set below, if_pos rfl]

/-- Where there is an entry, there is no link. -/
theorem link?_eq_none {place : Place} {entry : Entry} (below : place ≠ [])
    (found : tree.entry? place = some entry) : tree.link? place = none := by
  unfold entry? at found
  rw [if_neg below] at found
  split at found
  · cases found
  · next unlinked => simpa using unlinked

/-! ## Growth -/

/-- The second tree has all that the first has, and only directories besides. -/
structure Grows (before after : FileTree) : Prop where
  current : after.current = before.current
  links : after.link? = before.link?
  kept : ∀ place entry, before.entry? place = some entry → after.entry? place = some entry
  added : ∀ place entry, before.entry? place = none → after.entry? place = some entry →
    entry = .directory

theorem Grows.refl (tree : FileTree) : tree.Grows tree where
  current := rfl
  links := rfl
  kept _ _ found := found
  added place entry missing found := by
    rw [missing] at found
    cases found

theorem Grows.trans {first second third : FileTree} (grows : first.Grows second)
    (more : second.Grows third) : first.Grows third where
  current := more.current.trans grows.current
  links := more.links.trans grows.links
  kept place entry found := more.kept place entry (grows.kept place entry found)
  added place entry missing found := by
    cases between : second.entry? place with
    | none => exact more.added place entry between found
    | some other =>
      have same := more.kept place other between
      rw [found] at same
      cases same
      exact grows.added place entry missing between

/-! ## Directories that are made -/

/-- A directory is made where there is nothing. -/
theorem makeDirectory_eq_ok (made : tree.makeDirectory path = .ok tree') :
    ∃ parent name, tree.locateParent path = .ok (parent, some name) ∧ checkName name = .ok () ∧
      tree.entry? (parent ++ [name]) = none ∧ tree.link? (parent ++ [name]) = none ∧
      tree' = tree.set (parent ++ [name]) .directory := by
  obtain ⟨⟨parent, last⟩, located, made⟩ := bind_eq_ok.1 made
  cases last with
  | none => cases made
  | some name =>
    obtain ⟨⟨⟩, short, made⟩ := bind_eq_ok.1 made
    dsimp only at made
    split at made
    · cases made
    · next free =>
      cases made
      simp only [not_or, Option.not_isSome_iff_eq_none] at free
      exact ⟨parent, name, located, short, free.1, free.2, rfl⟩

theorem makeDirectory_grows (made : tree.makeDirectory path = .ok tree') : tree.Grows tree' := by
  obtain ⟨parent, name, -, -, missing, unlinked, rfl⟩ := makeDirectory_eq_ok made
  have below : parent ++ [name] ≠ [] := by simp
  refine ⟨rfl, link?_set_eq unlinked _, fun place entry found => ?_,
    fun place entry absent found => ?_⟩
  · rw [entry?_set below]
    split
    · next same =>
      rw [same, missing] at found
      cases found
    · exact found
  · rw [entry?_set below] at found
    split at found
    · exact (Option.some.inj found).symm
    · rw [absent] at found
      cases found

theorem ensureDirectory_grows (tree : FileTree) (path : String) :
    tree.Grows (tree.ensureDirectory path).1 := by
  unfold ensureDirectory
  cases made : tree.makeDirectory path with
  | ok tree' => exact makeDirectory_grows made
  | error e => exact Grows.refl tree

theorem makeDirectoriesUpTo_grows (depth : Nat) (tree : FileTree) (path : String) :
    tree.Grows (makeDirectoriesUpTo depth tree path).1 := by
  induction depth generalizing tree path with
  | zero => exact ensureDirectory_grows tree path
  | succ depth ih =>
    unfold makeDirectoriesUpTo
    split
    · exact Grows.refl tree
    · split
      · next e parent _ _ =>
        split
        · -- The parent is made first, and what was made of it stays if the rest fails.
          have above := ih tree parent
          split
          · next tree' made =>
            rw [made] at above
            exact above.trans (ensureDirectory_grows tree' path)
          · exact above
        · exact ensureDirectory_grows tree path
      · exact ensureDirectory_grows tree path

theorem makeDirectories_grows (tree : FileTree) (path : String) :
    tree.Grows (tree.makeDirectories path).1 :=
  makeDirectoriesUpTo_grows _ tree path

end SdlCompiler.FileTree
