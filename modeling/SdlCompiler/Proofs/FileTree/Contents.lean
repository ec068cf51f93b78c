import Mathlib.Logic.Function.Basic
import SdlCompiler.Proofs.FileTree.Growth
import SdlCompiler.Proofs.FileTree.Links

/-!
# What is in the files of a tree

An operation on a file that goes well sets the contents of one file, and leaves the contents of
every other file and all other links as they are (`Revises`). A file that is written or added to is
the one that the path leads to; one that is replaced is the one by the name that the path ends in.
Directories that are made do not count here: a directory has no contents.
-/

namespace SdlCompiler.FileTree

open Outcome

variable {tree tree' : FileTree} {path : String} {place : Place} {content : List UInt8} {mode : Nat}

theorem Grows.content?_eq {before after : FileTree} (grows : before.Grows after) :
    after.content? = before.content? := by
  funext place
  unfold content?
  cases found : before.entry? place with
  | some entry => rw [grows.kept place entry found]
  | none =>
    cases made : after.entry? place with
    | none => rfl
    | some entry => rw [grows.added place entry found made]

/-- The contents of the file that a path leads to. -/
def contentAt? (tree : FileTree) (path : String) : Option (List UInt8) :=
  match tree.fileAt path with
  | .ok (_, content, _) => some content
  | .error _ => none

theorem contentAt?_eq (located : tree.locate path = .ok place) :
    tree.contentAt? path = tree.content? place := by
  unfold contentAt? fileAt content?
  rw [located]
  dsimp only [bind, Except.bind]
  rcases tree.entry? place with _ | _ | _ <;> rfl

theorem content?_of_entry? (found : tree.entry? place = some (.file content mode)) :
    tree.content? place = some content := by
  unfold content?
  rw [found]

/-- What is no directory is not the root. -/
theorem ne_root (noDirectory : tree.entry? place ≠ some .directory) : place ≠ [] := by
  rintro rfl
  exact noDirectory rfl

/-- The second tree has a file with the given contents at the place, and the files and links of the
first everywhere else. -/
structure Revises (before after : FileTree) (place : Place) (content : List UInt8) : Prop where
  current : after.current = before.current
  contents : after.content? = Function.update before.content? place (some content)
  links : after.link? = Function.update before.link? place none

theorem revises_set (below : place ≠ []) :
    tree.Revises (tree.set place (.file content mode)) place content where
  current := rfl
  contents := by
    funext p
    unfold content?
    rw [entry?_set below]
    by_cases same : p = place
    · subst same
      simp
    · rw [if_neg same, Function.update_of_ne same]
  links := by
    funext p
    rw [link?_set]
    by_cases same : p = place
    · subst same
      simp
    · rw [if_neg same, Function.update_of_ne same]

/-- Directories may be made before the contents of a file are set. -/
theorem Grows.revises {before grown after : FileTree} (grows : before.Grows grown)
    (revises : grown.Revises after place content) : before.Revises after place content where
  current := revises.current.trans grows.current
  contents := by rw [revises.contents, grows.content?_eq]
  links := by rw [revises.links, grows.links]

/-! ## Operations -/

/-- What a write does: it sets a file that is new, or one that may be written. -/
theorem write_eq_ok (written : tree.write path content = .ok tree') :
    ∃ place mode, tree.locateNew path = .ok place ∧ tree.entry? place ≠ some .directory ∧
      tree' = tree.set place (.file content mode) ∧
      (tree.entry? place = none ∧ mode = defaultMode ∨
        ∃ old before, tree.entry? place = some (.file old before) ∧ isWritable before = true ∧
          mode = modeAfterWrite before) := by
  obtain ⟨place, located, written⟩ := bind_eq_ok.1 written
  split at written
  · next missing =>
    cases written
    exact ⟨place, _, located, by simp [missing], rfl, .inl ⟨missing, rfl⟩⟩
  · cases written
  · next old before there =>
    split at written
    · next mayWrite =>
      cases written
      exact ⟨place, _, located, by simp [there], rfl, .inr ⟨old, before, there, mayWrite, rfl⟩⟩
    · cases written

theorem write_revises (written : tree.write path content = .ok tree') :
    Path.EndsInComponent path ∧
      ∃ place, Path.reach tree.link? tree.current path = some place ∧
        tree.Revises tree' place content := by
  obtain ⟨place, mode, located, noDirectory, rfl, -⟩ := write_eq_ok written
  obtain ⟨-, walks⟩ := locateNew_eq_ok.1 located
  exact ⟨walks.endsInComponent noDirectory, place, walks.reach, revises_set (ne_root noDirectory)⟩

theorem fileAt_eq_ok :
    tree.fileAt path = .ok (place, content, mode) ↔
      tree.locate path = .ok place ∧ tree.entry? place = some (.file content mode) := by
  constructor
  · intro found
    obtain ⟨located, walked, found⟩ := bind_eq_ok.1 found
    split at found
    · cases found
    · cases found
    · next isFile =>
      cases found
      exact ⟨walked, isFile⟩
  · rintro ⟨located, isFile⟩
    exact bind_eq_ok.2 ⟨place, located, by rw [isFile]⟩

/-- The file that a path leads to. -/
theorem reach_of_fileAt (found : tree.fileAt path = .ok (place, content, mode)) :
    Path.EndsInComponent path ∧ Path.reach tree.link? tree.current path = some place ∧
      tree.content? place = some content ∧ place ≠ [] := by
  obtain ⟨located, isFile⟩ := fileAt_eq_ok.1 found
  obtain ⟨-, walks⟩ := locate_eq_ok.1 located
  have noDirectory : tree.entry? place ≠ some .directory := by simp [isFile]
  exact ⟨walks.endsInComponent noDirectory, walks.reach, content?_of_entry? isFile,
    ne_root noDirectory⟩

/-- What adding to a file does: it sets a file that is there and may be written. -/
theorem append_eq_ok (appended : tree.append path content = .ok tree') :
    ∃ place old before, tree.fileAt path = .ok (place, old, before) ∧ isWritable before = true ∧
      tree' = tree.set place (.file (old ++ content)
        (if content.isEmpty then before else modeAfterWrite before)) := by
  obtain ⟨⟨place, old, before⟩, found, appended⟩ := bind_eq_ok.1 appended
  dsimp only at appended
  split at appended
  · next mayWrite =>
    cases appended
    exact ⟨place, old, before, found, mayWrite, rfl⟩
  · cases appended

theorem append_revises (appended : tree.append path content = .ok tree') :
    ∃ place old, Path.reach tree.link? tree.current path = some place ∧
      tree.content? place = some old ∧ tree.Revises tree' place (old ++ content) := by
  obtain ⟨place, old, before, found, -, rfl⟩ := append_eq_ok appended
  obtain ⟨-, reached, isOld, below⟩ := reach_of_fileAt found
  exact ⟨place, old, reached, isOld, revises_set below⟩

/-- What replacing a file does: it sets what is there by the name that the path ends in. -/
theorem replace_eq_ok {change : List UInt8 → List UInt8}
    (replaced : tree.replace path change = .ok tree') :
    ∃ place old mode parent name, tree.fileAt path = .ok (place, old, mode) ∧
      isReadable mode = true ∧ tree.locateParent path = .ok (parent, some name) ∧
      tree' = tree.set (parent ++ [name]) (.file (change old) mode) := by
  obtain ⟨⟨place, old, mode⟩, found, replaced⟩ := bind_eq_ok.1 replaced
  dsimp only at replaced
  split at replaced
  · next mayRead =>
    obtain ⟨⟨parent, last⟩, located, replaced⟩ := bind_eq_ok.1 replaced
    cases last with
    | none => cases replaced
    | some name =>
      cases replaced
      exact ⟨place, old, mode, parent, name, found, mayRead, located, rfl⟩
  · cases replaced

theorem replace_revises {change : List UInt8 → List UInt8}
    (replaced : tree.replace path change = .ok tree') :
    Path.EndsInComponent path ∧
      ∃ place old here, Path.reach tree.link? tree.current path = some place ∧
        tree.content? place = some old ∧
        Path.holder tree.link? tree.current path = some here ∧
        tree.Revises tree' here (change old) := by
  obtain ⟨place, old, mode, parent, name, found, -, located, rfl⟩ := replace_eq_ok replaced
  obtain ⟨ends, reached, isOld, -⟩ := reach_of_fileAt found
  exact ⟨ends, place, old, parent ++ [name], reached, isOld, locateParent_eq_some located,
    revises_set (by simp)⟩

end SdlCompiler.FileTree
