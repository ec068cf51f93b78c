import SdlCompiler.Proofs.Output.Table

/-!
# Where edits may write

The names of edits come from a program that is not trusted. Whatever they are, and whether or not
all edits are applied, the only files that change in a tree without links are those that an edit
names inside the output directory. Edits make no links, so each of them finds such a tree.
-/

namespace SdlCompiler.Output

variable {directory path : String} {tree : FileTree} {edit : Wire.Edit} {edits : List Wire.Edit}
  {current place : Place} {name : String} {start draft draft' : Draft} {may : Place → Prop}

/-! ## The places that are written -/

theorem pathOf?_cases (found : pathOf? directory name = some path) :
    Path.Inward name ∧ Path.names name ≠ [] ∧ path = Path.join directory name := by
  unfold pathOf? at found
  split at found
  · cases found
  · next inside =>
    simp only [not_or, Bool.not_eq_true] at inside
    obtain ⟨relative, noParent, below⟩ := inside
    exact ⟨Path.inward_iff.2 ⟨relative, noParent⟩, below, (Option.some.inj found).symm⟩

/-- An edit reads a file at a path, which is the one that it names or the one that was set last, and
sets the contents that the path leads to, or that go by its name. -/
theorem tabled?_cases (tabled : tabled? current directory draft edit = some draft') :
    ∃ path place content, draft' = draft.set path place content ∧
      (pathOf? directory edit.name = some path ∨ draft.last = some path) ∧
      (Path.reach draft.links current path = some place ∨
        Path.holder draft.links current path = some place) := by
  unfold tabled? at tabled
  split at tabled
  · obtain ⟨path, named, tabled⟩ := Option.bind_eq_some_iff.1 tabled
    obtain ⟨place, reached, tabled⟩ := Option.bind_eq_some_iff.1 tabled
    split at tabled
    · obtain ⟨old, -, tabled⟩ := Option.bind_eq_some_iff.1 tabled
      obtain ⟨here, held, tabled⟩ := Option.bind_eq_some_iff.1 tabled
      exact ⟨path, here, _, (Option.some.inj tabled).symm, .inl named, .inr held⟩
    · exact ⟨path, place, _, (Option.some.inj tabled).symm, .inl named, .inl reached⟩
  · split at tabled
    · cases tabled
    · obtain ⟨path, last, tabled⟩ := Option.bind_eq_some_iff.1 tabled
      obtain ⟨place, reached, tabled⟩ := Option.bind_eq_some_iff.1 tabled
      obtain ⟨old, -, tabled⟩ := Option.bind_eq_some_iff.1 tabled
      exact ⟨path, place, _, (Option.some.inj tabled).symm, .inr last, .inl reached⟩

/-- A draft without links that differs from the one at the start only at places that may be written.
The file that was set last is among them, as an edit without a name adds to it. -/
structure Draft.Confined (current : Place) (may : Place → Prop) (start draft : Draft) : Prop where
  unlinked : draft.links = fun _ => none
  contents : ∀ place, ¬may place → draft.contents place = start.contents place
  last : ∀ path, draft.last = some path → may (Path.resolve current path)

theorem Draft.Confined.set (confined : Draft.Confined current may start draft)
    (here : may (Path.resolve current path)) (content : List UInt8) :
    Draft.Confined current may start (draft.set path (Path.resolve current path) content) where
  unlinked := by
    show Function.update draft.links _ none = _
    rw [confined.unlinked]
    exact Function.update_eq_self _ _
  contents other outside := by
    have elsewhere : other ≠ Path.resolve current path := by
      rintro rfl
      exact outside here
    show Function.update draft.contents _ (some content) other = start.contents other
    rw [Function.update_of_ne elsewhere]
    exact confined.contents other outside
  last other isLast := by
    cases isLast
    exact here

theorem Draft.Confined.step (confined : Draft.Confined current may start draft)
    (targets : ∀ path, pathOf? directory edit.name = some path → may (Path.resolve current path))
    (tabled : tabled? current directory draft edit = some draft') :
    Draft.Confined current may start draft' := by
  obtain ⟨path, place, content, rfl, named, leads⟩ := tabled?_cases tabled
  -- Without links, a path leads to the name that it ends in.
  have isPlace : place = Path.resolve current path := by
    rw [confined.unlinked] at leads
    have reached := leads.elim id fun held => Path.reach_of_holder held rfl
    rw [Path.reach_unlinked] at reached
    exact (Option.some.inj reached).symm
  subst isPlace
  exact confined.set (named.elim (targets path) (confined.last path)) content

theorem Draft.Confined.run (confined : Draft.Confined current may start draft)
    (targets : ∀ edit ∈ edits, ∀ path, pathOf? directory edit.name = some path →
      may (Path.resolve current path))
    (tabled : edits.foldlM (tabled? current directory) draft = some draft') :
    Draft.Confined current may start draft' := by
  induction edits generalizing draft with
  | nil =>
    cases tabled
    exact confined
  | cons first rest ih =>
    obtain ⟨next, stepped, later⟩ := Option.bind_eq_some_iff.1 tabled
    have onward := confined.step (targets first List.mem_cons_self) stepped
    exact ih onward (fun edit isRest => targets edit (List.mem_cons_of_mem first isRest)) later

/-! ## The edits of a response -/

/-- However the edits end, the contents of files are what the table makes of a beginning of them. -/
theorem apply_tabled (directory : String) (tree : FileTree) (edits : List Wire.Edit) :
    ∃ count last, (edits.take count).foldlM (tabled? tree.current directory) (draftOf tree none) =
      some (draftOf (apply directory tree edits).1 last) := by
  rcases applied : apply directory tree edits with ⟨after, outcome⟩
  cases outcome with
  | ok done =>
    obtain ⟨last, tabled⟩ := apply_ok_tabled applied
    refine ⟨edits.length, last, ?_⟩
    rw [List.take_length]
    exact tabled
  | error e =>
    obtain ⟨index, -, last, -, tabled, -⟩ := apply_error_tabled applied
    exact ⟨index, last, tabled⟩

/-- A file that no edit names is as it was. -/
theorem apply_content?_eq (unlinked : tree.links = [])
    (untargeted : ∀ edit ∈ edits, ∀ path, pathOf? directory edit.name = some path →
      place ≠ Path.resolve tree.current path) :
    (apply directory tree edits).1.content? place = tree.content? place := by
  obtain ⟨count, last, tabled⟩ := apply_tabled directory tree edits
  -- All places but this one may be written, and so this one is not.
  have begun : Draft.Confined tree.current (· ≠ place) (draftOf tree none) (draftOf tree none) := by
    refine ⟨funext fun p => ?_, fun _ _ => rfl, nofun⟩
    show tree.links.lookup p = none
    rw [unlinked]
    rfl
  have confined := begun.run (fun edit isEdit path named => (untargeted edit
    (List.mem_of_mem_take isEdit) path named).symm) tabled
  exact confined.contents place (not_not.2 rfl)

/-- An edit whose name stands for the output directory itself is never applied. -/
theorem applyEdit_home (named : edit.name ≠ "") (nameless : Path.names edit.name = [])
    (directory : String) (tree : FileTree) (previous : Option String) (index : Nat) :
    ∃ left e, applyEdit directory tree previous index edit = (left, .error e) ∧
      left.content? = tree.content? := by
  rcases applied : applyEdit directory tree previous index edit with ⟨left, result⟩
  cases result with
  | error e => exact ⟨left, e, rfl, (applyEdit_error applied).grows.content?_eq⟩
  | ok path =>
    obtain ⟨-, tabled⟩ := applyEdit_eq_ok applied
    have pathless : pathOf? directory edit.name = none := by simp [pathOf?, nameless]
    simp [tabled?, named, pathless] at tabled

/-- Whether the edits are applied or one of them fails, in a tree without links a file keeps its
contents, or stays absent, unless some edit's name has only normal components and dots and stands
for it in the output directory. Such a name stands for a place in the directory or for the directory
itself, and in the second case its edit fails and writes no file. So no file changes that is not
below the directory. -/
theorem apply_confined (directory : String) (tree : FileTree) (edits : List Wire.Edit)
    (unlinked : tree.links = []) :
    let home := Path.resolve tree.current directory
    let after := (apply directory tree edits).1
    (∀ place, (∀ edit ∈ edits, edit.name ≠ "" → Path.Inward edit.name →
        place ≠ Path.resolve tree.current (Path.join directory edit.name)) →
      after.content? place = tree.content? place) ∧
    (∀ edit : Wire.Edit, edit.name ≠ "" → Path.Inward edit.name →
      ∃ below, Path.resolve tree.current (Path.join directory edit.name) = home ++ below ∧
        (below = [] → ∀ tree' previous index, ∃ left e,
          applyEdit directory tree' previous index edit = (left, .error e) ∧
            left.content? = tree'.content?)) ∧
    ∀ place, ¬(home <+: place ∧ place ≠ home) → after.content? place = tree.content? place := by
  intro home after
  refine ⟨fun place untargeted => ?_, fun edit named inward => ?_, fun place outside => ?_⟩
  · refine apply_content?_eq unlinked fun edit isEdit path found => ?_
    obtain ⟨inward, below, rfl⟩ := pathOf?_cases found
    refine untargeted edit isEdit ?_ inward
    intro unnamed
    rw [unnamed] at below
    exact below (by decide)
  · exact ⟨Path.names edit.name, Path.resolve_join_inward inward _ _,
      fun nameless => applyEdit_home named nameless directory⟩
  · refine apply_content?_eq unlinked fun edit isEdit path found same => outside ?_
    obtain ⟨inward, below, rfl⟩ := pathOf?_cases found
    rw [same, Path.resolve_join_inward inward]
    exact ⟨List.prefix_append home _, fun same => below (List.append_right_eq_self.1 same)⟩

/-- The last edit leads out of the directory and fails. The file that it names stays as it is, and
so does one in the directory that no edit names. -/
theorem apply_confined_hostile :
    let tree : FileTree :=
      { entries := [(["secret.txt"], .file [1] 0o644), (["out"], .directory),
          (["out", "kept.txt"], .file [2] 0o644)] }
    let edits : List Wire.Edit :=
      [{ name := "new/./a.txt", content := "3" }, { content := "4" },
        { name := "../secret.txt", content := "5" }]
    let after := (apply "out" tree edits).1
    tree.links = [] ∧ (apply "out" tree edits).2 = .error (.outside 2 "../secret.txt") ∧
      after.content? ["out", "new", "a.txt"] = some [0x33, 0x34] ∧
      after.content? ["secret.txt"] = tree.content? ["secret.txt"] ∧
      after.content? ["out", "kept.txt"] = tree.content? ["out", "kept.txt"] := by
  intro tree edits after
  obtain ⟨unnamed, -, outside⟩ := apply_confined "out" tree edits rfl
  have others : ∀ edit ∈ edits,
      ["out", "kept.txt"] ≠ Path.resolve tree.current (Path.join "out" edit.name) := by
    decide +kernel
  exact ⟨rfl, by decide +kernel, by decide +kernel, outside ["secret.txt"] (by decide +kernel),
    unnamed ["out", "kept.txt"] fun edit isEdit _ _ => others edit isEdit⟩

end SdlCompiler.Output
