import Mathlib.Data.List.Basic
import SdlCompiler.Proofs.FileTree.Contents
import SdlCompiler.Proofs.Output.Failure

/-!
# What edits do to files

The edits of a response, told by their effect on the contents of files and on links alone
(`tabled?`). The edits that are applied are a beginning of the response, and the contents of all
files are what the table makes of that beginning. Where not all edits are applied, the first one
that is not is told by the error, and whether it is refused for its name depends on the edit alone.
-/

namespace SdlCompiler.Output

open Outcome

variable {directory : String} {tree tree' middle left : FileTree} {previous : Option String}
  {index : Nat} {edit : Wire.Edit} {edits before : List Wire.Edit} {path : String} {e : OutputError}

/-! ## The table -/

/-- The contents of all files, the links, and the path of the file that was edited last. -/
structure Draft where
  contents : Place → Option (List UInt8)
  links : Place → Option String := fun _ => none
  last : Option String := none

/-- The draft after an edit of the file at a path set the contents at a place. A link at the place
gives way to the file. -/
def Draft.set (draft : Draft) (path : String) (place : Place) (content : List UInt8) : Draft where
  contents := Function.update draft.contents place (some content)
  links := Function.update draft.links place none
  last := some path

/-- The path of the file that a name stands for in an output directory. The name must not lead out
of the directory, and it must not stand for the directory itself. -/
def pathOf? (directory name : String) : Option String :=
  if Path.isAbsolute name ∨ ".." ∈ Path.pieces name ∨ Path.names name = [] then none
  else some (Path.join directory name)

/-- What an edit makes of a draft. With a name only, the contents of the file that the name leads to
are set; with an insertion point as well, content is put into what is in that file, and the result
takes its name; with neither, it is added to the file of the edit before. -/
def tabled? (current : Place) (directory : String) (draft : Draft) (edit : Wire.Edit) :
    Option Draft := do
  if edit.name ≠ "" then
    let path ← pathOf? directory edit.name
    let place ← Path.reach draft.links current path
    if edit.insertionPoint ≠ "" then
      let old ← draft.contents place
      let here ← Path.holder draft.links current path
      return draft.set path here (inject edit.insertionPoint edit.content old)
    else return draft.set path place edit.content.toUTF8.toList
  else if edit.insertionPoint ≠ "" then none
  else
    let path ← draft.last
    let place ← Path.reach draft.links current path
    let old ← draft.contents place
    return draft.set path place (old ++ edit.content.toUTF8.toList)

/-- A tree as a draft, after an edit of the file at the given path. -/
def draftOf (tree : FileTree) (previous : Option String) : Draft where
  contents := tree.content?
  links := tree.link?
  last := previous

theorem draftOf_grown (previous : Option String) (grows : tree.Grows tree') :
    draftOf tree' previous = draftOf tree previous := by
  unfold draftOf
  rw [grows.content?_eq, grows.links]

theorem draftOf_revised (previous : Option String) {place : Place} {content : List UInt8}
    (revises : tree.Revises tree' place content) :
    draftOf tree' (some path) = (draftOf tree previous).set path place content := by
  unfold draftOf Draft.set
  rw [revises.contents, revises.links]

/-! ## One edit -/

theorem all_isInward {name : String} :
    (Path.components name).all isInward = true ↔ Path.Inward name := by
  rw [List.all_eq_true]
  refine forall₂_congr fun c _ => ?_
  cases c <;> simp [isInward]

theorem target_eq (directory : String) (index : Nat) (name : String) :
    target directory index name =
      if Path.isAbsolute name ∨ ".." ∈ Path.pieces name then .error (.outside index name)
      else .ok (Path.join directory name) := by
  unfold target
  by_cases outside : Path.isAbsolute name ∨ ".." ∈ Path.pieces name
  · rw [if_pos outside, if_neg]
    rw [all_isInward, Path.inward_iff]
    rintro ⟨relative, noParent⟩
    rcases outside with absolute | up
    · rw [relative] at absolute
      cases absolute
    · exact noParent up
  · rw [if_neg outside, if_pos]
    rw [all_isInward, Path.inward_iff]
    simpa [not_or] using outside

theorem pathOf?_eq_some (inward : Path.Inward edit.name) (named : edit.name ≠ "")
    (ends : Path.EndsInComponent (Path.join directory edit.name)) :
    pathOf? directory edit.name = some (Path.join directory edit.name) := by
  obtain ⟨relative, noParent⟩ := Path.inward_iff.1 inward
  have below := Path.names_ne_nil inward named ends
  rw [pathOf?, if_neg (by simp [relative, noParent, below])]

theorem makeParent_grows (tree : FileTree) (path : String) :
    tree.Grows (makeParent tree path).1 := by
  unfold makeParent
  split
  · exact .refl tree
  · next parent _ => exact tree.makeDirectories_grows parent

/-- A file is written once the directories above it are made. -/
theorem writeNew_eq_ok {content : String} {done : Unit}
    (written : writeNew tree path content = (tree', .ok done)) :
    ∃ grown, makeParent tree path = (grown, .ok ()) ∧
      grown.write path content.toUTF8.toList = .ok tree' := by
  unfold writeNew at written
  split at written
  · cases written
  · next grown made =>
    split at written
    · next success =>
      cases written
      exact ⟨grown, made, success⟩
    · cases written

theorem writeNew_revises {content : String} {done : Unit}
    (written : writeNew tree path content = (tree', .ok done)) :
    Path.EndsInComponent path ∧
      ∃ place, Path.reach tree.link? tree.current path = some place ∧
        tree.Revises tree' place content.toUTF8.toList := by
  obtain ⟨grown, made, success⟩ := writeNew_eq_ok written
  have grows := makeParent_grows tree path
  rw [made] at grows
  obtain ⟨ends, place, reached, revises⟩ := FileTree.write_revises success
  rw [grows.links, grows.current] at reached
  exact ⟨ends, place, reached, grows.revises revises⟩

/-- The end of an edit that is an operation on the file at a path. -/
def settle (tree : FileTree) (path : String) (result : Except SystemError FileTree) :
    FileTree × Except OutputError String :=
  match result with
  | .ok tree' => (tree', .ok path)
  | .error cause => (tree, .error (.system path cause))

theorem settle_eq_ok {path' : String} {result : Except SystemError FileTree}
    (settled : settle tree path result = (tree', .ok path')) : result = .ok tree' ∧ path' = path := by
  cases result with
  | ok _ =>
    cases settled
    exact ⟨rfl, rfl⟩
  | error _ => cases settled

theorem settle_eq_error {result : Except SystemError FileTree}
    (settled : (settle tree path result).2 = .error e) :
    ∃ cause, e = .system path cause ∧ result = .error cause := by
  cases result with
  | ok _ => cases settled
  | error cause =>
    cases settled
    exact ⟨cause, rfl, rfl⟩

theorem applyEdit_adds (nameless : edit.name = "") (plain : edit.insertionPoint = "")
    (directory : String) (tree : FileTree) (index : Nat) (path : String) :
    applyEdit directory tree (some path) index edit =
      settle tree path (tree.append path edit.content.toUTF8.toList) := by
  rw [applyEdit, if_pos nameless, if_neg (not_not.2 plain)]
  rfl

theorem applyEdit_inserts (named : edit.name ≠ "") (inward : Path.Inward edit.name)
    (inserted : edit.insertionPoint ≠ "") (directory : String) (tree : FileTree)
    (previous : Option String) (index : Nat) :
    applyEdit directory tree previous index edit =
      settle tree (Path.join directory edit.name)
        (tree.replace (Path.join directory edit.name)
          (inject edit.insertionPoint edit.content)) := by
  have targeted : target directory index edit.name = .ok (Path.join directory edit.name) :=
    if_pos (all_isInward.2 inward)
  unfold applyEdit
  rw [if_neg named, targeted]
  exact if_pos inserted

theorem applyEdit_writes (named : edit.name ≠ "") (inward : Path.Inward edit.name)
    (plain : edit.insertionPoint = "") (directory : String) (tree : FileTree)
    (previous : Option String) (index : Nat) :
    applyEdit directory tree previous index edit =
      ((writeNew tree (Path.join directory edit.name) edit.content).1,
        (writeNew tree (Path.join directory edit.name) edit.content).2.map
          fun () => Path.join directory edit.name) := by
  have targeted : target directory index edit.name = .ok (Path.join directory edit.name) :=
    if_pos (all_isInward.2 inward)
  simp [applyEdit, named, targeted, plain]

/-- The kinds of edits and what they do: three are refused, and three are operations on files. -/
inductive EditCase (directory : String) (tree : FileTree) (previous : Option String) (index : Nat)
    (edit : Wire.Edit) : Prop
  | unnamed : edit.name = "" → edit.insertionPoint ≠ "" →
      applyEdit directory tree previous index edit =
        (tree, .error (.missingName index edit.insertionPoint)) →
      EditCase directory tree previous index edit
  | unpreceded : edit.name = "" → edit.insertionPoint = "" → previous = none →
      applyEdit directory tree previous index edit = (tree, .error (.missingPredecessor index)) →
      EditCase directory tree previous index edit
  | outside : edit.name ≠ "" → Path.isAbsolute edit.name ∨ ".." ∈ Path.pieces edit.name →
      applyEdit directory tree previous index edit = (tree, .error (.outside index edit.name)) →
      EditCase directory tree previous index edit
  | adds {path : String} : edit.name = "" → edit.insertionPoint = "" → previous = some path →
      applyEdit directory tree previous index edit =
        settle tree path (tree.append path edit.content.toUTF8.toList) →
      EditCase directory tree previous index edit
  | inserts : edit.name ≠ "" → Path.Inward edit.name → edit.insertionPoint ≠ "" →
      applyEdit directory tree previous index edit =
        settle tree (Path.join directory edit.name)
          (tree.replace (Path.join directory edit.name)
            (inject edit.insertionPoint edit.content)) →
      EditCase directory tree previous index edit
  | writes : edit.name ≠ "" → Path.Inward edit.name → edit.insertionPoint = "" →
      applyEdit directory tree previous index edit =
        ((writeNew tree (Path.join directory edit.name) edit.content).1,
          (writeNew tree (Path.join directory edit.name) edit.content).2.map
            fun () => Path.join directory edit.name) →
      EditCase directory tree previous index edit

theorem applyEdit_case (directory : String) (tree : FileTree) (previous : Option String)
    (index : Nat) (edit : Wire.Edit) : EditCase directory tree previous index edit := by
  by_cases nameless : edit.name = ""
  · by_cases plain : edit.insertionPoint = ""
    · cases previous with
      | none => exact .unpreceded nameless plain rfl (by simp [applyEdit, nameless, plain])
      | some path => exact .adds nameless plain rfl (applyEdit_adds nameless plain _ _ _ _)
    · exact .unnamed nameless plain (by simp [applyEdit, nameless, plain])
  · by_cases outside : Path.isAbsolute edit.name ∨ ".." ∈ Path.pieces edit.name
    · have targeted := target_eq directory index edit.name
      rw [if_pos outside] at targeted
      exact .outside nameless outside (by simp [applyEdit, nameless, targeted])
    · have inward : Path.Inward edit.name := Path.inward_iff.2 (by simpa [not_or] using outside)
      by_cases plain : edit.insertionPoint = ""
      · exact .writes nameless inward plain (applyEdit_writes nameless inward plain _ _ _ _)
      · exact .inserts nameless inward plain (applyEdit_inserts nameless inward plain _ _ _ _)

/-- An edit that is applied does what the table tells. -/
theorem applyEdit_eq_ok
    (applied : applyEdit directory tree previous index edit = (tree', .ok path)) :
    tree'.current = tree.current ∧
      tabled? tree.current directory (draftOf tree previous) edit =
        some (draftOf tree' (some path)) := by
  unfold tabled?
  cases applyEdit_case directory tree previous index edit with
  | unnamed _ _ failed | unpreceded _ _ _ failed | outside _ _ failed =>
    rw [failed] at applied
    cases applied
  | adds nameless plain before added =>
    obtain ⟨appended, rfl⟩ := settle_eq_ok (added.symm.trans applied)
    obtain ⟨place, old, reached, found, revises⟩ := FileTree.append_revises appended
    refine ⟨revises.current, ?_⟩
    rw [draftOf_revised previous revises]
    simp [nameless, plain, before, draftOf, reached, found]
  | inserts named inward inserted put =>
    obtain ⟨replaced, rfl⟩ := settle_eq_ok (put.symm.trans applied)
    obtain ⟨ends, place, old, here, reached, found, held, revises⟩ :=
      FileTree.replace_revises replaced
    refine ⟨revises.current, ?_⟩
    rw [draftOf_revised previous revises, pathOf?_eq_some inward named ends]
    simp [named, inserted, draftOf, reached, found, held]
  | writes named inward plain wrote =>
    obtain ⟨isTree, ended⟩ := Prod.mk.inj (wrote.symm.trans applied)
    obtain ⟨⟨⟩, written, rfl⟩ := map_eq_ok.1 ended
    obtain ⟨ends, place, reached, revises⟩ := writeNew_revises (Prod.ext isTree written)
    refine ⟨revises.current, ?_⟩
    rw [draftOf_revised previous revises, pathOf?_eq_some inward named ends]
    simp [named, plain, draftOf, reached]

/-! ## The edits of a response -/

/-- Where edits that are all applied lead to: the draft that the table makes of them, and the path
that one more edit may add to. -/
structure Reaches (directory : String) (tree : FileTree) (previous : Option String) (index : Nat)
    (edits : List Wire.Edit) (middle : FileTree) (last : Option String) : Prop where
  current : middle.current = tree.current
  tabled : edits.foldlM (tabled? tree.current directory) (draftOf tree previous) =
    some (draftOf middle last)
  last_eq : edits = [] → last = previous
  last_ne : edits ≠ [] → last ≠ none
  next : ∀ edit, applyFrom directory tree previous index (edits ++ [edit]) =
    ((applyEdit directory middle last (index + edits.length) edit).1,
      (applyEdit directory middle last (index + edits.length) edit).2.map fun _ => ())

/-- Edits that are all applied do what the table tells, one after the other. -/
theorem applyFrom_reaches {done : Unit}
    (applied : applyFrom directory tree previous index edits = (middle, .ok done)) :
    ∃ last, Reaches directory tree previous index edits middle last := by
  induction edits generalizing tree previous index with
  | nil =>
    cases applied
    refine ⟨previous, rfl, rfl, fun _ => rfl, fun absurd => (absurd rfl).elim, fun edit => ?_⟩
    rw [List.nil_append, applyFrom, List.length_nil, Nat.add_zero]
    rcases applyEdit directory middle previous index edit with ⟨next, result⟩
    cases result <;> rfl
  | cons first rest ih =>
    rw [applyFrom] at applied
    rcases step : applyEdit directory tree previous index first with ⟨next, result⟩
    rw [step] at applied
    cases result with
    | error e => cases applied
    | ok path =>
      obtain ⟨sameCurrent, tabled⟩ := applyEdit_eq_ok step
      obtain ⟨last, current, later, alone, more, snoc⟩ := ih applied
      refine ⟨last, current.trans sameCurrent, ?_, fun empty => ?_, fun _ => ?_, fun edit => ?_⟩
      · rw [List.foldlM_cons, tabled, ← sameCurrent]
        exact later
      · cases empty
      · by_cases single : rest = []
        · simp [alone single]
        · exact more single
      · rw [List.cons_append, applyFrom, step, List.length_cons, Nat.add_comm rest.length 1,
          ← Nat.add_assoc]
        exact snoc edit

/-- What follows an edit that fails is not begun. -/
theorem applyFrom_append_error
    (failed : applyFrom directory tree previous index before = (left, .error e))
    (after : List Wire.Edit) :
    applyFrom directory tree previous index (before ++ after) = (left, .error e) := by
  induction before generalizing tree previous index with
  | nil => cases failed
  | cons edit rest ih =>
    rw [List.cons_append, applyFrom]
    rw [applyFrom] at failed
    split at failed
    · exact ih failed
    · exact failed

/-! ## Edits that are refused -/

/-- Why an edit is refused for its name, whatever the files are. -/
def refusal? (index : Nat) (edit : Wire.Edit) : Option OutputError :=
  if edit.name ≠ "" then
    if Path.isAbsolute edit.name ∨ ".." ∈ Path.pieces edit.name then
      some (.outside index edit.name)
    else none
  else if edit.insertionPoint ≠ "" then some (.missingName index edit.insertionPoint)
  else if index = 0 then some (.missingPredecessor index)
  else none

theorem refusal?_eq_some :
    refusal? index edit = some e ↔
      (e = .missingName index edit.insertionPoint ∧ edit.name = "" ∧ edit.insertionPoint ≠ "") ∨
        (e = .outside index edit.name ∧
          (Path.isAbsolute edit.name ∨ ".." ∈ Path.pieces edit.name)) ∨
        (e = .missingPredecessor 0 ∧ index = 0 ∧ edit.name = "" ∧ edit.insertionPoint = "") := by
  unfold refusal?
  by_cases named : edit.name = ""
  · have inside : ¬(Path.isAbsolute "" ∨ ".." ∈ Path.pieces "") := by decide
    rw [if_neg (not_not.2 named)]
    by_cases plain : edit.insertionPoint = ""
    · by_cases zero : index = 0 <;> simp [named, plain, zero, inside, @eq_comm _ _ e]
    · simp [named, plain, inside, @eq_comm _ _ e]
  · rw [if_pos named]
    by_cases outside : Path.isAbsolute edit.name ∨ ".." ∈ Path.pieces edit.name
    · simp [named, outside, @eq_comm _ _ e]
    · simp [named, outside]

theorem applyEdit_refused (first : previous = none ↔ index = 0)
    (refused : refusal? index edit = some e) :
    applyEdit directory tree previous index edit = (tree, .error e) := by
  unfold refusal? at refused
  cases applyEdit_case directory tree previous index edit with
  | unnamed nameless inserted failed =>
    obtain rfl : OutputError.missingName index edit.insertionPoint = e := by
      simpa [nameless, inserted] using refused
    exact failed
  | unpreceded nameless plain unset failed =>
    obtain rfl : OutputError.missingPredecessor index = e := by
      simpa [nameless, plain, first.1 unset] using refused
    exact failed
  | outside named outside failed =>
    obtain rfl : OutputError.outside index edit.name = e := by
      simpa [named, outside] using refused
    exact failed
  | adds nameless plain before _ =>
    have later : index ≠ 0 := fun zero => by simp [first.2 zero] at before
    simp [nameless, plain, later] at refused
  | inserts named inward _ _ | writes named inward _ _ =>
    obtain ⟨relative, noParent⟩ := Path.inward_iff.1 inward
    simp [named, relative, noParent] at refused

/-- What keeps an edit from being applied where it is not its name: the system does not make the
directories above its file, or does not find, read or write the file. -/
inductive Hindered (directory : String) (tree : FileTree) (last : Option String)
    (edit : Wire.Edit) : String → SystemError → Prop
  | making {parent : String} {cause : SystemError} : edit.name ≠ "" → edit.insertionPoint = "" →
      Path.parent? (Path.join directory edit.name) = some parent →
      (tree.makeDirectories parent).2 = .error cause →
      Hindered directory tree last edit parent cause
  | writing {grown : FileTree} {cause : SystemError} : edit.name ≠ "" → edit.insertionPoint = "" →
      makeParent tree (Path.join directory edit.name) = (grown, .ok ()) →
      grown.write (Path.join directory edit.name) edit.content.toUTF8.toList = .error cause →
      Hindered directory tree last edit (Path.join directory edit.name) cause
  | inserting {cause : SystemError} : edit.name ≠ "" → edit.insertionPoint ≠ "" →
      tree.replace (Path.join directory edit.name) (inject edit.insertionPoint edit.content) =
        .error cause →
      Hindered directory tree last edit (Path.join directory edit.name) cause
  | adding {path : String} {cause : SystemError} : edit.name = "" → edit.insertionPoint = "" →
      last = some path → tree.append path edit.content.toUTF8.toList = .error cause →
      Hindered directory tree last edit path cause

theorem makeParent_error (failed : (makeParent tree path).2 = .error e) :
    ∃ parent cause, e = .system parent cause ∧ Path.parent? path = some parent ∧
      (tree.makeDirectories parent).2 = .error cause := by
  unfold makeParent at failed
  split at failed
  · cases failed
  · next parent isParent =>
    dsimp only at failed
    cases made : (tree.makeDirectories parent).2 with
    | ok done =>
      rw [made] at failed
      cases failed
    | error cause =>
      rw [made] at failed
      cases failed
      exact ⟨parent, cause, rfl, isParent, made⟩

theorem hindered_of_writeNew {last : Option String} (named : edit.name ≠ "")
    (plain : edit.insertionPoint = "")
    (failed : (writeNew tree (Path.join directory edit.name) edit.content).2 = .error e) :
    ∃ path cause, e = .system path cause ∧ Hindered directory tree last edit path cause := by
  unfold writeNew at failed
  split at failed
  · next made =>
    cases failed
    obtain ⟨parent, cause, rfl, isParent, refused⟩ := makeParent_error (congrArg Prod.snd made)
    exact ⟨parent, cause, rfl, .making named plain isParent refused⟩
  · next made =>
    split at failed
    · cases failed
    · next refused =>
      cases failed
      exact ⟨_, _, rfl, .writing named plain made refused⟩

/-- An edit that is not refused for its name fails only if the system hinders it. -/
theorem applyEdit_hindered (first : previous = none ↔ index = 0)
    (accepted : refusal? index edit = none)
    (failed : (applyEdit directory tree previous index edit).2 = .error e) :
    ∃ path cause, e = .system path cause ∧
      Hindered directory tree previous edit path cause := by
  unfold refusal? at accepted
  cases applyEdit_case directory tree previous index edit with
  | unnamed nameless inserted _ => simp [nameless, inserted] at accepted
  | unpreceded nameless plain unset _ => simp [nameless, plain, first.1 unset] at accepted
  | outside named outside _ => simp [named, outside] at accepted
  | adds nameless plain before added =>
    rw [added] at failed
    obtain ⟨cause, isSystem, refused⟩ := settle_eq_error failed
    exact ⟨_, cause, isSystem, .adding nameless plain before refused⟩
  | inserts named _ inserted put =>
    rw [put] at failed
    obtain ⟨cause, isSystem, refused⟩ := settle_eq_error failed
    exact ⟨_, cause, isSystem, .inserting named inserted refused⟩
  | writes named _ plain wrote =>
    rw [wrote] at failed
    cases written : (writeNew tree (Path.join directory edit.name) edit.content).2 with
    | ok done =>
      rw [written] at failed
      cases failed
    | error e' =>
      rw [written] at failed
      cases failed
      exact hindered_of_writeNew named plain written

theorem applyEdit_error_iff (first : previous = none ↔ index = 0)
    (unsystematic : ∀ path cause, e ≠ .system path cause) :
    (applyEdit directory tree previous index edit).2 = .error e ↔ refusal? index edit = some e := by
  constructor
  · intro failed
    cases refused : refusal? index edit with
    | none =>
      obtain ⟨path, cause, isSystem, -⟩ := applyEdit_hindered first refused failed
      exact absurd isSystem (unsystematic path cause)
    | some e' =>
      rw [applyEdit_refused first refused] at failed
      cases failed
      rfl
  · intro refused
    rw [applyEdit_refused first refused]

/-! ## The edit that fails -/

/-- The edits before this one are applied, and this one is not. -/
def FailsAt (directory : String) (tree : FileTree) (edits : List Wire.Edit) (index : Nat)
    (edit : Wire.Edit) : Prop :=
  edits[index]? = some edit ∧ (apply directory tree (edits.take index)).2 = .ok () ∧
    ∃ e, (apply directory tree (edits.take (index + 1))).2 = .error e

theorem exists_failsAt (failed : (apply directory tree edits).2 = .error e) :
    ∃ index edit, FailsAt directory tree edits index edit := by
  obtain ⟨before, edit, after, middle, rfl, done, fails, -⟩ :=
    apply_error (Prod.ext rfl failed : apply directory tree edits = (_, .error e))
  refine ⟨before.length, edit, by simp, ?_, e, ?_⟩
  · rw [List.take_left' rfl, done]
  · rw [List.take_length_add_append]
    exact congrArg Prod.snd fails

/-- What ends a response is the failure of one edit, in the tree that those before it gave. -/
theorem FailsAt.exists_error (fails : FailsAt directory tree edits index edit) :
    let middle := (apply directory tree (edits.take index)).1
    ∃ last left e, Reaches directory tree none 0 (edits.take index) middle last ∧
      (last = none ↔ index = 0) ∧
      applyEdit directory middle last index edit = (left, .error e) ∧
      apply directory tree edits = (left, .error e) := by
  obtain ⟨found, done, e, failed⟩ := fails
  obtain ⟨inside, -⟩ := List.getElem?_eq_some_iff.1 found
  have length : (edits.take index).length = index := List.length_take_of_le (Nat.le_of_lt inside)
  obtain ⟨last, reaches⟩ := applyFrom_reaches
    (Prod.ext rfl done : applyFrom directory tree none 0 (edits.take index) = (_, .ok ()))
  have next := reaches.next edit
  rw [length, Nat.zero_add] at next
  have upTo : edits.take (index + 1) = edits.take index ++ [edit] := by
    rw [List.take_add_one, found]
    rfl
  rcases applied : applyEdit directory (apply directory tree (edits.take index)).1 last index edit
    with ⟨left, result⟩
  unfold apply at failed applied
  rw [upTo, next, applied] at failed
  cases result with
  | ok path => cases failed
  | error e' =>
    refine ⟨last, left, e', reaches, ?_, applied, ?_⟩
    · constructor
      · intro unset
        by_contra later
        refine reaches.last_ne (fun empty => later ?_) unset
        rw [← length, empty]
        rfl
      · intro zero
        subst zero
        exact reaches.last_eq rfl
    · rw [applied] at next
      rw [← List.take_append_drop (index + 1) edits, upTo]
      exact applyFrom_append_error next _

theorem apply_error_iff (unsystematic : ∀ path cause, e ≠ .system path cause) :
    (apply directory tree edits).2 = .error e ↔
      ∃ index edit, FailsAt directory tree edits index edit ∧ refusal? index edit = some e := by
  constructor
  · intro failed
    obtain ⟨index, edit, fails⟩ := exists_failsAt failed
    obtain ⟨last, left, e', -, first, applied, whole⟩ := fails.exists_error
    rw [whole] at failed
    cases failed
    exact ⟨index, edit, fails,
      (applyEdit_error_iff first unsystematic).1 (congrArg Prod.snd applied)⟩
  · rintro ⟨index, edit, fails, refused⟩
    obtain ⟨last, left, e', -, first, applied, whole⟩ := fails.exists_error
    rw [applyEdit_refused first refused] at applied
    cases applied
    rw [whole]

/-- Edits that are all applied leave what the table makes of them. -/
theorem apply_ok_tabled {done : Unit} (applied : apply directory tree edits = (tree', .ok done)) :
    ∃ last, edits.foldlM (tabled? tree.current directory) (draftOf tree none) =
      some (draftOf tree' last) := by
  obtain ⟨last, reaches⟩ := applyFrom_reaches applied
  exact ⟨_, reaches.tabled⟩

/-- What an edit that fails leaves is what those before it made of the files. -/
theorem apply_error_tabled (failed : apply directory tree edits = (left, .error e)) :
    ∃ index edit last, FailsAt directory tree edits index edit ∧
      (edits.take index).foldlM (tabled? tree.current directory) (draftOf tree none) =
        some (draftOf left last) ∧
      ∀ path cause, e = .system path cause →
        Hindered directory (apply directory tree (edits.take index)).1 last edit path cause := by
  obtain ⟨index, edit, fails⟩ := exists_failsAt (congrArg Prod.snd failed)
  obtain ⟨last, left', e', reaches, first, applied, whole⟩ := fails.exists_error
  rw [whole] at failed
  cases failed
  refine ⟨index, edit, last, fails, ?_, ?_⟩
  · rw [draftOf_grown last (applyEdit_error applied).grows]
    exact reaches.tabled
  · rintro path cause rfl
    cases refused : refusal? index edit with
    | none =>
      obtain ⟨_, _, ⟨⟩, hindered⟩ :=
        applyEdit_hindered first refused (congrArg Prod.snd applied)
      exact hindered
    | some e' =>
      rw [applyEdit_refused first refused] at applied
      cases applied
      simp [refusal?_eq_some] at refused

/-- Edits are applied by the table up to the first that fails, and the contents of all files and the
links are those of the table up to there. The error tells that edit. It fails for its name exactly
if it has an insertion point and no name, if its name leads out of the directory, or if it is the
first and has neither; otherwise it fails because the system hinders it. -/
theorem apply_table (directory : String) (tree : FileTree) (edits : List Wire.Edit) :
    let table := tabled? tree.current directory
    let start : Draft := { contents := tree.content?, links := tree.link? }
    let after := (apply directory tree edits).1
    let outcome := (apply directory tree edits).2
    (outcome = .ok () →
      ∃ last, edits.foldlM table start = some ⟨after.content?, after.link?, last⟩) ∧
    (∀ e, outcome = .error e → ∃ index edit last, FailsAt directory tree edits index edit ∧
      (edits.take index).foldlM table start = some ⟨after.content?, after.link?, last⟩ ∧
      ∀ path cause, e = .system path cause →
        Hindered directory (apply directory tree (edits.take index)).1 last edit path cause) ∧
    (∀ index insertionPoint, outcome = .error (.missingName index insertionPoint) ↔
      ∃ edit, FailsAt directory tree edits index edit ∧ edit.name = "" ∧
        edit.insertionPoint = insertionPoint ∧ insertionPoint ≠ "") ∧
    (∀ index name, outcome = .error (.outside index name) ↔
      ∃ edit, FailsAt directory tree edits index edit ∧ edit.name = name ∧
        (Path.isAbsolute name ∨ ".." ∈ Path.pieces name)) ∧
    ∀ index, outcome = .error (.missingPredecessor index) ↔
      index = 0 ∧ ∃ edit, FailsAt directory tree edits 0 edit ∧ edit.name = "" ∧
        edit.insertionPoint = "" := by
  intro table start after outcome
  refine ⟨fun done => apply_ok_tabled (Prod.ext rfl done),
    fun e failed => apply_error_tabled (Prod.ext rfl failed),
    fun index insertionPoint => ?_, fun index name => ?_, fun index => ?_⟩
  · rw [apply_error_iff (fun _ _ => by simp)]
    simp only [refusal?_eq_some]
    constructor
    · rintro ⟨_, edit, fails, ⟨⟨⟩, nameless, inserted⟩ | ⟨⟨⟩, -⟩ | ⟨⟨⟩, -⟩⟩
      exact ⟨edit, fails, nameless, rfl, inserted⟩
    · rintro ⟨edit, fails, nameless, rfl, inserted⟩
      exact ⟨index, edit, fails, .inl ⟨rfl, nameless, inserted⟩⟩
  · rw [apply_error_iff (fun _ _ => by simp)]
    simp only [refusal?_eq_some]
    constructor
    · rintro ⟨_, edit, fails, ⟨⟨⟩, -⟩ | ⟨⟨⟩, outside⟩ | ⟨⟨⟩, -⟩⟩
      exact ⟨edit, fails, rfl, outside⟩
    · rintro ⟨edit, fails, rfl, outside⟩
      exact ⟨index, edit, fails, .inr (.inl ⟨rfl, outside⟩)⟩
  · rw [apply_error_iff (fun _ _ => by simp)]
    simp only [refusal?_eq_some]
    constructor
    · rintro ⟨_, edit, fails, ⟨⟨⟩, -⟩ | ⟨⟨⟩, -⟩ | ⟨⟨⟩, rfl, nameless, plain⟩⟩
      exact ⟨rfl, edit, fails, nameless, plain⟩
    · rintro ⟨rfl, edit, fails, nameless, plain⟩
      exact ⟨0, edit, fails, .inr (.inr ⟨rfl, rfl, nameless, plain⟩)⟩

end SdlCompiler.Output
