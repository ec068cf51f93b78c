import Mathlib.Data.Nat.Bitwise
import SdlCompiler.Proofs.FileTree.Contents

/-!
# Operations done again

What an operation on files has found or made stays there: a directory stays a directory, and a file
stays a file that may be read and written as before (`Keeps`). So an operation that went well in a
tree goes well in every tree that came of the result. This is so as long as no link is replaced by a
file, after which the same path may lead to another place.
-/

namespace SdlCompiler

open Outcome

/-- What a file may be used for. A directory has no such rights. -/
def Entry.rights : Entry → Option (Bool × Bool)
  | .directory => none
  | .file _ mode => some (FileTree.isReadable mode, FileTree.isWritable mode)

namespace FileTree

variable {tree tree' later before after middle : FileTree} {path : String} {place : Place}
  {content : List UInt8} {mode : Nat}

/-! ## Trees that keep what another has -/

/-- Wherever the first tree has an entry, the second has one with the same rights, and the links are
the same. -/
structure Keeps (before after : FileTree) : Prop where
  current : after.current = before.current
  links : after.link? = before.link?
  entries : ∀ place entry, before.entry? place = some entry →
    ∃ entry', after.entry? place = some entry' ∧ entry'.rights = entry.rights

theorem Keeps.trans (keeps : before.Keeps middle) (more : middle.Keeps after) :
    before.Keeps after where
  current := more.current.trans keeps.current
  links := more.links.trans keeps.links
  entries place entry found := by
    obtain ⟨entry', found', same⟩ := keeps.entries place entry found
    obtain ⟨entry'', found'', same'⟩ := more.entries place entry' found'
    exact ⟨entry'', found'', same'.trans same⟩

theorem Grows.keeps (grows : before.Grows after) : before.Keeps after where
  current := grows.current
  links := grows.links
  entries place entry found := ⟨entry, grows.kept place entry found, rfl⟩

theorem Keeps.directory (keeps : before.Keeps after)
    (found : before.entry? place = some .directory) : after.entry? place = some .directory := by
  obtain ⟨entry, kept, same⟩ := keeps.entries place _ found
  cases entry with
  | directory => exact kept
  | file _ _ => cases same

theorem Keeps.file (keeps : before.Keeps after)
    (found : before.entry? place = some (.file content mode)) :
    ∃ content' mode', after.entry? place = some (.file content' mode') ∧
      isReadable mode' = isReadable mode ∧ isWritable mode' = isWritable mode := by
  obtain ⟨entry, kept, same⟩ := keeps.entries place _ found
  cases entry with
  | directory => cases same
  | file content' mode' =>
    exact ⟨content', mode', kept, by simpa [Entry.rights] using same⟩

/-- Setting an entry keeps the others, and its own place if its rights stay. -/
theorem keeps_set {entry : Entry} (below : place ≠ []) (unlinked : tree.link? place = none)
    (same : ∀ old, tree.entry? place = some old → entry.rights = old.rights) :
    tree.Keeps (tree.set place entry) where
  current := rfl
  links := link?_set_eq unlinked entry
  entries other old found := by
    rw [entry?_set below]
    by_cases here : other = place
    · rw [here] at found
      exact ⟨entry, if_pos here, same old found⟩
    · exact ⟨old, by rw [if_neg here, found], rfl⟩

/-- Taking away a bit leaves those below it. -/
theorem sub_and_and (n : Nat) {j k : Nat} (below : j < k) :
    (n - (n &&& 2 ^ k)) &&& 2 ^ j = n &&& 2 ^ j := by
  have multiple : n &&& 2 ^ k = 2 ^ k * (n.testBit k).toNat := by
    rw [Nat.and_two_pow, Nat.mul_comm]
  have same : (n - (n &&& 2 ^ k)) % 2 ^ k = n % 2 ^ k := by
    rw [multiple]
    exact Nat.sub_mul_mod (multiple ▸ Nat.and_le_left)
  have bit := congrArg (Nat.testBit · j) same
  simp only [Nat.testBit_mod_two_pow, below, decide_true, Bool.true_and] at bit
  rw [Nat.and_two_pow _ j, Nat.and_two_pow n j, bit]

theorem modeAfterWrite_and (mode : Nat) {j : Nat} (below : j < 10) :
    modeAfterWrite mode &&& 2 ^ j = mode &&& 2 ^ j := by
  have once := sub_and_and mode (Nat.lt_trans below (by decide : 10 < 11))
  unfold modeAfterWrite
  dsimp only
  split
  · exact (sub_and_and _ below).trans once
  · exact once

/-- Writing to a file takes away only rights of those who run it. -/
theorem rights_modeAfterWrite (old content : List UInt8) (mode : Nat) :
    (Entry.file content (modeAfterWrite mode)).rights = (Entry.file old mode).rights := by
  have read : modeAfterWrite mode &&& 0o400 = mode &&& 0o400 :=
    modeAfterWrite_and mode (by decide : 8 < 10)
  have written : modeAfterWrite mode &&& 0o200 = mode &&& 0o200 :=
    modeAfterWrite_and mode (by decide : 7 < 10)
  simp only [Entry.rights, isReadable, isWritable, read, written]

/-! ## Paths -/

theorem Keeps.stride (keeps : before.Keeps after) {purpose : Purpose} {piece : String}
    {rest : List String} {s : Stride} (strode : before.stride purpose place piece rest = .ok s) :
    after.stride purpose place piece rest = .ok s := by
  obtain ⟨isDirectory, strides⟩ := stride_eq_ok.1 strode
  refine stride_eq_ok.2 ⟨keeps.directory isDirectory, ?_⟩
  have links := congrFun keeps.links (place ++ [piece])
  cases strides with
  | idle idle => exact .idle idle
  | up up => exact .up up
  | link named slashless short linked =>
    exact .link named slashless short (links.trans linked)
  | name named slashless short unlinked there =>
    refine .name named slashless short (links.trans unlinked) (there.imp_left fun found => ?_)
    obtain ⟨entry, isEntry⟩ := Option.isSome_iff_exists.1 found
    obtain ⟨entry', kept, -⟩ := keeps.entries _ entry isEntry
    rw [kept]
    rfl

/-- A piece that may be made leads where it does once there is something. -/
theorem stride_of_isSome {purpose : Purpose} {piece : String} {rest : List String} {s : Stride}
    (strode : tree.stride purpose place piece rest = .ok s)
    (there : ∀ next, s = .place next → rest = [] → (tree.entry? next).isSome = true) :
    tree.stride .find place piece rest = .ok s := by
  obtain ⟨isDirectory, strides⟩ := stride_eq_ok.1 strode
  refine stride_eq_ok.2 ⟨isDirectory, ?_⟩
  cases strides with
  | idle idle => exact .idle idle
  | up up => exact .up up
  | link named _ short linked => exact .link named (by simp) short linked
  | name named _ short unlinked found =>
    exact .name named (by simp) short unlinked (.inl (found.elim id fun ends => there _ rfl ends.2))

theorem Keeps.walks (keeps : before.Keeps after) {purpose : Purpose} {limit : Nat} {start : Place}
    {pieces : List String} (walks : Walks before purpose limit start pieces place) :
    Walks after purpose limit start pieces place := by
  induction walks with
  | ended => exact .ended
  | straight strode _ ih => exact .straight (keeps.stride strode) ih
  | linked strode _ ih => exact .linked (keeps.stride strode) ih

theorem Keeps.locate (keeps : before.Keeps after) (located : before.locate path = .ok place) :
    after.locate path = .ok place := by
  obtain ⟨valid, walks⟩ := locate_eq_ok.1 located
  rw [← keeps.current] at walks
  exact locate_eq_ok.2 ⟨valid, keeps.walks walks⟩

theorem Keeps.locateNew (keeps : before.Keeps after) (located : before.locateNew path = .ok place) :
    after.locateNew path = .ok place := by
  obtain ⟨valid, walks⟩ := locateNew_eq_ok.1 located
  rw [← keeps.current] at walks
  exact locateNew_eq_ok.2 ⟨valid, keeps.walks walks⟩

theorem Keeps.locateParent (keeps : before.Keeps after) {found : Place × Option String}
    (located : before.locateParent path = .ok found) : after.locateParent path = .ok found := by
  obtain ⟨⟨⟩, valid, located⟩ := bind_eq_ok.1 located
  refine bind_eq_ok.2 ⟨(), valid, ?_⟩
  split at located
  · exact located
  · obtain ⟨parent, walked, named⟩ := bind_eq_ok.1 located
    refine bind_eq_ok.2 ⟨parent, ?_, named⟩
    rw [walk, ← keeps.current] at walked
    exact walkUpTo_eq_ok.2 (keeps.walks (walkUpTo_eq_ok.1 walked))

theorem Keeps.unlinkedBelow {directory : String} (keeps : before.Keeps after)
    (unlinked : before.UnlinkedBelow directory) : after.UnlinkedBelow directory := by
  unfold UnlinkedBelow
  rw [keeps.links, keeps.current]
  exact unlinked

/-- What may be made is found once it is there. -/
theorem Walks.find {purpose : Purpose} {limit : Nat} {start : Place} {pieces : List String}
    (walks : Walks tree purpose limit start pieces place)
    (there : (tree.entry? place).isSome = true) : Walks tree .find limit start pieces place := by
  induction walks with
  | ended => exact .ended
  | straight strode walks ih =>
    refine .straight (stride_of_isSome strode ?_) (ih there)
    rintro next ⟨⟩ rfl
    cases walks
    exact there
  | linked strode _ ih => exact .linked (stride_of_isSome strode nofun) (ih there)

theorem isDirectory_iff :
    tree.isDirectory path = true ↔
      ∃ place, tree.locate path = .ok place ∧ tree.entry? place = some .directory := by
  unfold isDirectory
  split
  · next located => simp [located]
  · next failed => simp [failed]

theorem Keeps.isDirectory (keeps : before.Keeps after) (there : before.isDirectory path = true) :
    after.isDirectory path = true := by
  obtain ⟨place, located, found⟩ := isDirectory_iff.1 there
  exact isDirectory_iff.2 ⟨place, keeps.locate located, keeps.directory found⟩

/-! ## Files -/

theorem Keeps.fileAt (keeps : before.Keeps after)
    (found : before.fileAt path = .ok (place, content, mode)) :
    ∃ content' mode', after.fileAt path = .ok (place, content', mode') ∧
      isReadable mode' = isReadable mode ∧ isWritable mode' = isWritable mode := by
  obtain ⟨located, isFile⟩ := fileAt_eq_ok.1 found
  obtain ⟨content', mode', kept, readable, writable⟩ := keeps.file isFile
  exact ⟨content', mode', fileAt_eq_ok.2 ⟨keeps.locate located, kept⟩, readable, writable⟩

/-- A file that is there may be set, if its rights stay. -/
theorem keeps_of_entry? {old : List UInt8} {mode' : Nat}
    (isFile : tree.entry? place = some (.file old mode))
    (same : (Entry.file content mode').rights = (Entry.file old mode).rights) :
    tree.Keeps (tree.set place (.file content mode')) := by
  have noDirectory : tree.entry? place ≠ some .directory := by simp [isFile]
  have below := ne_root noDirectory
  refine keeps_set below (link?_eq_none below isFile) fun entry isEntry => ?_
  rw [isFile] at isEntry
  cases isEntry
  exact same

theorem append_keeps (appended : tree.append path content = .ok tree') : tree.Keeps tree' := by
  obtain ⟨place, old, mode, found, -, rfl⟩ := append_eq_ok appended
  refine keeps_of_entry? (fileAt_eq_ok.1 found).2 ?_
  split
  · rfl
  · exact rights_modeAfterWrite _ _ _

theorem append_again (appended : tree.append path content = .ok tree') (keeps : tree.Keeps later) :
    ∃ later', later.append path content = .ok later' := by
  obtain ⟨place, old, mode, found, mayWrite, -⟩ := append_eq_ok appended
  obtain ⟨content', mode', foundAgain, -, writable⟩ := keeps.fileAt found
  exact ⟨_, bind_eq_ok.2 ⟨_, foundAgain, if_pos (writable.trans mayWrite)⟩⟩

/-- Where the path does not end in a link, what is replaced is the file that it leads to. -/
theorem replace_keeps {change : List UInt8 → List UInt8}
    (replaced : tree.replace path change = .ok tree')
    (unlinked : ∀ here, Path.holder tree.link? tree.current path = some here →
      tree.link? here = none) : tree.Keeps tree' := by
  obtain ⟨place, old, mode, parent, name, found, -, located, rfl⟩ := replace_eq_ok replaced
  obtain ⟨-, reached, -, -⟩ := reach_of_fileAt found
  have held := locateParent_eq_some located
  have same : place = parent ++ [name] :=
    Option.some.inj (reached.symm.trans (Path.reach_of_holder held (unlinked _ held)))
  subst same
  exact keeps_of_entry? (fileAt_eq_ok.1 found).2 rfl

theorem replace_again {change : List UInt8 → List UInt8}
    (replaced : tree.replace path change = .ok tree') (keeps : tree.Keeps later) :
    ∃ later', later.replace path change = .ok later' := by
  obtain ⟨place, old, mode, parent, name, found, mayRead, located, -⟩ := replace_eq_ok replaced
  obtain ⟨content', mode', foundAgain, readable, -⟩ := keeps.fileAt found
  refine ⟨later.set (parent ++ [name]) (.file (change content') mode'),
    bind_eq_ok.2 ⟨_, foundAgain, (if_pos (readable.trans mayRead)).trans ?_⟩⟩
  exact bind_eq_ok.2 ⟨_, keeps.locateParent located, rfl⟩

/-- A file that is written may be written, and one that was there has the rights that it had. -/
theorem rights_of_write (written : tree.write path content = .ok tree') :
    ∃ place mode, tree.locateNew path = .ok place ∧ place ≠ [] ∧ isWritable mode = true ∧
      tree' = tree.set place (.file content mode) ∧
      ∀ old, tree.entry? place = some old → (Entry.file content mode).rights = old.rights := by
  obtain ⟨place, mode, located, noDirectory, rfl, fresh | there⟩ := write_eq_ok written
  · obtain ⟨missing, rfl⟩ := fresh
    exact ⟨place, defaultMode, located, ne_root noDirectory, by decide, rfl, by simp [missing]⟩
  · obtain ⟨old, before, isFile, mayWrite, rfl⟩ := there
    have same := rights_modeAfterWrite old content before
    refine ⟨place, _, located, ne_root noDirectory, ?_, rfl, ?_⟩
    · have writable := congrArg (Option.map Prod.snd) same
      exact (Option.some.inj writable).trans mayWrite
    · rw [isFile]
      rintro _ ⟨⟩
      exact same

theorem write_keeps (written : tree.write path content = .ok tree')
    (unlinked : ∀ place, Path.reach tree.link? tree.current path = some place →
      tree.link? place = none) : tree.Keeps tree' := by
  obtain ⟨place, mode, located, below, -, rfl, same⟩ := rights_of_write written
  exact keeps_set below (unlinked place (locateNew_eq_ok.1 located).2.reach) same

/-- A file that was written is found. -/
theorem locate_of_write (written : tree.write path content = .ok tree') (kept : tree.Keeps tree') :
    ∃ place, tree'.locate path = .ok place := by
  obtain ⟨place, mode, found, below, -, rfl, -⟩ := rights_of_write written
  obtain ⟨valid, walks⟩ := locateNew_eq_ok.1 (kept.locateNew found)
  refine ⟨place, locate_eq_ok.2 ⟨valid, walks.find ?_⟩⟩
  rw [entry?_set_self below]
  rfl

theorem write_again (written : tree.write path content = .ok tree') (kept : tree.Keeps tree')
    (keeps : tree'.Keeps later) : ∃ later', later.write path content = .ok later' := by
  obtain ⟨place, mode, found, below, mayWrite, rfl, -⟩ := rights_of_write written
  obtain ⟨content', mode', isFile, -, writable⟩ := keeps.file (entry?_set_self below _)
  refine ⟨later.set place (.file content (modeAfterWrite mode')),
    bind_eq_ok.2 ⟨place, (kept.trans keeps).locateNew found, ?_⟩⟩
  rw [isFile]
  exact if_pos (writable.trans mayWrite)

/-! ## Directories -/

/-- A name that is followed is that of an entry or of a link. -/
theorem Strides.isSome_of_name {piece : String} {rest : List String} {s : Stride}
    (strides : Strides tree .find place piece rest s)
    (named : Path.component? piece = some (.normal piece)) :
    checkName piece = .ok () ∧
      ((tree.entry? (place ++ [piece])).isSome = true ∨
        (tree.link? (place ++ [piece])).isSome = true) := by
  cases strides with
  | idle idle | up idle =>
    rw [named] at idle
    cases idle
  | link _ _ short linked => exact ⟨short, .inr (by rw [linked]; rfl)⟩
  | name _ _ short _ there => exact ⟨short, .inl (by simpa using there)⟩

/-- Where there is a directory, or a link to one, none can be made. -/
theorem makeDirectory_of_isDirectory (there : tree.isDirectory path = true) :
    tree.makeDirectory path = .error .alreadyExists := by
  obtain ⟨place, located, -⟩ := isDirectory_iff.1 there
  obtain ⟨valid, walks⟩ := locate_eq_ok.1 located
  cases stripped : (Path.pieces path).reverse.dropWhile (· = "") with
  | nil =>
    rw [makeDirectory, locateParent, valid, stripped]
    rfl
  | cons last above =>
    obtain ⟨notEmpty, after, whole, -⟩ := Path.exists_of_stripped stripped
    rw [whole] at walks
    obtain ⟨left, parent, reached, onward⟩ := walks.split
    obtain ⟨s, strode⟩ : ∃ s, tree.stride .find parent last after = .ok s := by
      cases onward with
      | straight strode _ | linked strode _ => exact ⟨_, strode⟩
    have found : tree.locateParent path =
        .ok (parent, if last = "." ∨ last = ".." then none else some last) :=
      (locateParent_iff valid stripped).2 ⟨reached, (stride_eq_ok.1 strode).1, rfl⟩
    rw [makeDirectory, found]
    by_cases dots : last = "." ∨ last = ".."
    · rw [if_pos dots]
      rfl
    · obtain ⟨short, taken⟩ := (stride_eq_ok.1 strode).2.isSome_of_name (Path.component?_eq_some.2
        (.inr ⟨rfl, notEmpty, not_or.1 dots⟩))
      rw [if_neg dots]
      simp only [bind, Except.bind, short]
      exact if_pos taken

/-- A path leads to its last component, if that is a directory. -/
theorem locate_of_locateParent {parent : Place} {name : String}
    (found : tree.locateParent path = .ok (parent, some name)) (short : checkName name = .ok ())
    (there : tree.entry? (parent ++ [name]) = some .directory) :
    tree.locate path = .ok (parent ++ [name]) := by
  obtain ⟨valid, above, after, whole, named, idle, reached, isDirectory⟩ := locateParent_eq_ok found
  have strode : tree.stride .find parent name after = .ok (.place (parent ++ [name])) :=
    stride_eq_ok.2 ⟨isDirectory, .name named (by simp) short (link?_eq_none (by simp) there)
      (.inl (by rw [there]; rfl))⟩
  refine locate_eq_ok.2 ⟨valid, ?_⟩
  rw [whole]
  exact reached.append fun left => .straight strode (walks_idle there idle left)

/-- A directory that was made is there. -/
theorem isDirectory_of_makeDirectory (made : tree.makeDirectory path = .ok tree') :
    tree'.isDirectory path = true := by
  have keeps := (makeDirectory_grows made).keeps
  obtain ⟨parent, name, found, short, -, -, rfl⟩ := makeDirectory_eq_ok made
  have there : FileTree.entry? (tree.set (parent ++ [name]) .directory) (parent ++ [name]) =
      some .directory := entry?_set_self (by simp) _
  exact isDirectory_iff.2
    ⟨_, locate_of_locateParent (keeps.locateParent found) short there, there⟩

theorem ensureDirectory_of_isDirectory (there : tree.isDirectory path = true) :
    tree.ensureDirectory path = (tree, .ok ()) := by
  rw [ensureDirectory, makeDirectory_of_isDirectory there]
  dsimp only
  rw [if_pos there]

theorem isDirectory_of_ensureDirectory (ensured : tree.ensureDirectory path = (tree', .ok ())) :
    tree'.isDirectory path = true := by
  unfold ensureDirectory at ensured
  split at ensured
  · next made =>
    cases ensured
    exact isDirectory_of_makeDirectory made
  · split at ensured
    · next there =>
      cases ensured
      exact there
    · cases ensured

theorem isDirectory_of_makeDirectoriesUpTo {depth : Nat} (named : path ≠ "")
    (made : makeDirectoriesUpTo depth tree path = (tree', .ok ())) :
    tree'.isDirectory path = true := by
  unfold makeDirectoriesUpTo at made
  -- Whatever is made above it, the directory itself is made last.
  split at made
  · exact isDirectory_of_ensureDirectory made
  · rw [if_neg named] at made
    split at made
    · split at made
      · split at made
        · exact isDirectory_of_ensureDirectory made
        · next failed => exact (failed tree' made).elim
      · exact isDirectory_of_ensureDirectory made
    · exact isDirectory_of_ensureDirectory made

/-- Directories that were made need not be made again. -/
theorem makeDirectories_again (made : tree.makeDirectories path = (tree', .ok ()))
    (keeps : tree'.Keeps later) : later.makeDirectories path = (later, .ok ()) := by
  unfold makeDirectories at made ⊢
  by_cases unnamed : path = ""
  · subst unnamed
    rfl
  · have there := keeps.isDirectory (isDirectory_of_makeDirectoriesUpTo unnamed made)
    unfold makeDirectoriesUpTo
    split
    · exact ensureDirectory_of_isDirectory there
    · rw [if_neg unnamed, makeDirectory_of_isDirectory there]
      split
      · next failed _ =>
        cases failed
        exact ensureDirectory_of_isDirectory there
      · exact ensureDirectory_of_isDirectory there

end FileTree

end SdlCompiler
