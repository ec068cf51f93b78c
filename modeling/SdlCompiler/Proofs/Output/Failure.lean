import SdlCompiler.Output.Apply
import SdlCompiler.Proofs.FileTree.Growth

/-!
# Edits that fail

What is in the file tree after an edit could not be applied. The edits before it stay, those after
it are not begun, and the edit itself changes nothing, but for one thing: an edit that writes a file
makes the directories above the file first, and these stay.
-/

namespace SdlCompiler.Output

variable {directory path content : String} {tree left : FileTree} {previous : Option String}
  {index : Nat} {edit : Wire.Edit} {edits : List Wire.Edit} {e : OutputError}

/-! ## One edit -/

/-- What a failing edit leaves behind: nothing, or some of the directories above the file that it
was to write. -/
structure LeavesBehind (directory : String) (edit : Wire.Edit) (before after : FileTree) :
    Prop where
  made : after = before ∨
    (edit.name ≠ "" ∧ edit.insertionPoint = "" ∧
      ∃ parent, Path.parent? (Path.join directory edit.name) = some parent ∧
        after = (before.makeDirectories parent).1)
  grows : before.Grows after

theorem leavesBehind_nothing : LeavesBehind directory edit tree tree :=
  ⟨.inl rfl, .refl tree⟩

theorem writeNew_error (failed : writeNew tree path content = (left, .error e)) :
    left = tree ∨
      ∃ parent, Path.parent? path = some parent ∧ left = (tree.makeDirectories parent).1 := by
  unfold writeNew makeParent at failed
  cases isParent : Path.parent? path with
  | none =>
    rw [isParent] at failed
    dsimp only at failed
    split at failed
    · cases failed
    · cases failed
      exact .inl rfl
  | some parent =>
    rw [isParent] at failed
    refine .inr ⟨parent, rfl, ?_⟩
    dsimp only at failed
    rcases made : tree.makeDirectories parent with ⟨grown, result⟩
    rw [made] at failed
    cases result with
    | error cause =>
      cases failed
      rfl
    | ok _ =>
      dsimp only [Except.mapError] at failed
      split at failed
      · cases failed
      · cases failed
        rfl

theorem applyEdit_error (failed : applyEdit directory tree previous index edit = (left, .error e)) :
    LeavesBehind directory edit tree left := by
  unfold applyEdit at failed
  dsimp only at failed
  split at failed
  · -- Without a name nothing is written, or it is added to a file that is there.
    split at failed
    · cases failed
      exact leavesBehind_nothing
    · split at failed
      · cases failed
        exact leavesBehind_nothing
      · split at failed
        · cases failed
        · cases failed
          exact leavesBehind_nothing
  · next named =>
    cases targeted : target directory index edit.name with
    | error e' =>
      rw [targeted] at failed
      cases failed
      exact leavesBehind_nothing
    | ok path =>
      rw [targeted] at failed
      dsimp only at failed
      split at failed
      · split at failed
        · cases failed
        · cases failed
          exact leavesBehind_nothing
      · next plain =>
        rcases written : writeNew tree path edit.content with ⟨grown, result⟩
        rw [written] at failed
        cases result with
        | ok _ => cases failed
        | error e' =>
          cases failed
          have isPath : path = Path.join directory edit.name := by
            unfold target at targeted
            split at targeted
            · exact (Except.ok.inj targeted).symm
            · cases targeted
          subst isPath
          rcases writeNew_error written with rfl | ⟨parent, isParent, rfl⟩
          · exact leavesBehind_nothing
          · exact ⟨.inr ⟨named, by simpa using plain, parent, isParent, rfl⟩,
              tree.makeDirectories_grows parent⟩

/-! ## The edits of a response -/

/-- The edits before one that fails are applied, and it leaves behind what it does. -/
def FailsWithin (directory : String) (tree : FileTree) (edits : List Wire.Edit) (left : FileTree)
    (e : OutputError) : Prop :=
  ∃ before edit after middle, edits = before ++ edit :: after ∧
    apply directory tree before = (middle, .ok ()) ∧
    apply directory tree (before ++ [edit]) = (left, .error e) ∧
    LeavesBehind directory edit middle left

theorem applyFrom_error (failed : applyFrom directory tree previous index edits = (left, .error e)) :
    ∃ before edit after middle, edits = before ++ edit :: after ∧
      applyFrom directory tree previous index before = (middle, .ok ()) ∧
      applyFrom directory tree previous index (before ++ [edit]) = (left, .error e) ∧
      LeavesBehind directory edit middle left := by
  induction edits generalizing tree previous index with
  | nil => cases failed
  | cons first rest ih =>
    rw [applyFrom] at failed
    rcases applied : applyEdit directory tree previous index first with ⟨next, result⟩
    rw [applied] at failed
    cases result with
    | error e' =>
      cases failed
      refine ⟨[], first, rest, tree, rfl, rfl, ?_, applyEdit_error applied⟩
      rw [List.nil_append, applyFrom, applied]
    | ok path =>
      obtain ⟨before, edit, after, middle, rfl, done, fails, leaves⟩ := ih failed
      refine ⟨first :: before, edit, after, middle, rfl, ?_, ?_, leaves⟩
      · rw [applyFrom, applied]
        exact done
      · rw [List.cons_append, applyFrom, applied]
        exact fails

theorem apply_error (failed : apply directory tree edits = (left, .error e)) :
    FailsWithin directory tree edits left e :=
  applyFrom_error failed

end SdlCompiler.Output
