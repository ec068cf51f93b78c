import SdlCompiler.Echo.Generate
import SdlCompiler.Proofs.Output.Table

/-!
# The names of echoes

Whatever a schema file is called, the name of its echo is a path of names only, put together from
those among the components of the file's name (`outputName_eq`). A path that is put together from
names has these as its components (`Path.components_ofPieces`), so no echo is refused for its name
(`refusal?_eq_none`).
-/

namespace SdlCompiler

/-! ## Pieces put together -/

namespace Text

variable {α : Type} [DecidableEq α] {mark : α} {text piece : List α}

theorem not_mem_of_mem_split (member : piece ∈ split mark text) : mark ∉ piece := by
  induction text generalizing piece with
  | nil =>
    rw [List.mem_singleton.1 member]
    exact List.not_mem_nil
  | cons c rest ih =>
    rw [split] at member
    split at member
    · rcases List.mem_cons.1 member with rfl | later
      · exact List.not_mem_nil
      · exact ih later
    · next other =>
      cases pieces : split mark rest with
      | nil => exact absurd pieces (split_ne_nil mark rest)
      | cons first more =>
        rw [pieces] at member ih
        rcases List.mem_cons.1 member with rfl | later
        · rw [List.mem_cons, not_or]
          exact ⟨fun same => other same.symm, ih List.mem_cons_self⟩
        · exact ih (List.mem_cons_of_mem first later)

theorem split_of_not_mem (absent : mark ∉ text) : split mark text = [text] := by
  induction text with
  | nil => rfl
  | cons c rest ih =>
    obtain ⟨other, later⟩ := not_or.1 (mt List.mem_cons.2 absent)
    rw [split, if_neg (Ne.symm other), ih later]

end Text

namespace Path

variable {path piece : String} {parts before : List String}

/-- What may stand between slashes as a name. -/
structure IsName (piece : String) : Prop where
  component : component? piece = some (.normal piece)
  slashless : '/' ∉ piece.toList

theorem IsName.ne_empty (isName : IsName piece) : piece ≠ "" := by
  rintro rfl
  cases isName.component

/-- A text without slashes that is longer than two dots. -/
theorem isName_of_length (slashless : '/' ∉ piece.toList) (long : 2 < piece.length) :
    IsName piece := by
  refine ⟨component?_eq_some.2 (.inr ⟨rfl, ?_, ?_, ?_⟩), slashless⟩
  · rintro rfl
    exact absurd long (by decide)
  · rintro rfl
    exact absurd long (by decide)
  · rintro rfl
    exact absurd long (by decide)

theorem isName_of_mem_names (member : piece ∈ names path) : IsName piece := by
  obtain ⟨c, present, isNormal⟩ := List.mem_filterMap.1 member
  cases c with
  | root | current | parent => cases isNormal
  | normal name =>
    obtain rfl := Option.some.inj isNormal
    rcases mem_components_iff.1 present with ⟨isRoot, -⟩ | ⟨isCurrent, -⟩ | ⟨p, inPieces, named⟩
    · cases isRoot
    · cases isCurrent
    · rcases component?_eq_some.1 named with ⟨isParent, -⟩ | ⟨isNormal, -⟩
      · cases isParent
      · obtain rfl := Component.normal.inj isNormal
        obtain ⟨text, isPiece, rfl⟩ := List.mem_map.1 inPieces
        refine ⟨named, ?_⟩
        rw [String.toList_ofList]
        exact Text.not_mem_of_mem_split isPiece

theorem pieces_ofPieces (nonempty : parts ≠ []) (areNames : ∀ part ∈ parts, IsName part) :
    pieces (ofPieces parts) = parts := by
  have alone : ∀ part, IsName part → pieces part = [part] := by
    intro part isName
    rw [pieces, Text.split_of_not_mem isName.slashless, List.map_singleton, String.ofList_toList]
  induction parts with
  | nil => exact absurd rfl nonempty
  | cons first rest ih =>
    obtain ⟨isName, others⟩ := List.forall_mem_cons.1 areNames
    by_cases last : rest = []
    · subst last
      exact alone first isName
    · rw [ofPieces, String.intercalate_cons_of_ne_nil last, pieces_slash, alone first isName]
      exact congrArg (first :: ·) (ih last others)

theorem components_ofPieces (nonempty : parts ≠ []) (areNames : ∀ part ∈ parts, IsName part) :
    components (ofPieces parts) = parts.map .normal := by
  have split := pieces_ofPieces nonempty areNames
  cases parts with
  | nil => exact absurd rfl nonempty
  | cons first rest =>
    obtain ⟨isName, others⟩ := List.forall_mem_cons.1 areNames
    have written : ofPieces (first :: rest) ≠ "" := by
      intro empty
      rw [empty] at split
      exact isName.ne_empty (List.cons.inj split).1.symm
    have named : rest.filterMap component? = rest.map .normal :=
      List.filterMap_eq_map_iff_forall_eq_some.2 fun part member => (others part member).component
    have notCurrent : first ≠ "." := by
      rintro rfl
      cases isName.component
    rw [components, if_neg written, split]
    simp only [if_neg isName.ne_empty, if_neg notCurrent, isName.component, named]
    rfl

/-- What is added to a path is added to its last piece. -/
theorem ofPieces_append (before : List String) (last suffix : String) :
    ofPieces (before ++ [last]) ++ suffix = ofPieces (before ++ [last ++ suffix]) := by
  unfold ofPieces
  induction before with
  | nil => simp
  | cons first rest ih =>
    rw [List.cons_append, List.cons_append, String.intercalate_cons_of_ne_nil (by simp),
      String.intercalate_cons_of_ne_nil (by simp), ← ih, String.append_assoc]

end Path

namespace Echo

open SdlCompiler.Path

/-! ## Names of echoes -/

theorem outputName_eq (name : String) :
    ∃ before last, outputName name = ofPieces (before ++ [last ++ ".echo.graphql"]) ∧
      ∀ part ∈ before ++ [last ++ ".echo.graphql"], IsName part := by
  have slashless : '/' ∉ ".echo.graphql".toList := by decide
  have long : ∀ last : String, 2 < (last ++ ".echo.graphql").length := by
    intro last
    rw [String.length_append]
    exact Nat.lt_of_lt_of_le (by decide) (Nat.le_add_left _ _)
  rcases List.eq_nil_or_concat' (names (stem name)) with none | ⟨before, last, split⟩
  · refine ⟨[], "", ?_, fun part member => ?_⟩
    · rw [outputName, none]
      rfl
    · rw [List.mem_singleton.1 member]
      exact isName_of_length slashless (long "")
  · have isName : ∀ part ∈ before ++ [last], IsName part :=
      fun part member => isName_of_mem_names (split ▸ member)
    rw [List.forall_mem_append, List.forall_mem_singleton] at isName
    refine ⟨before, last, ?_, ?_⟩
    · rw [outputName, split, ofPieces_append]
    · rw [List.forall_mem_append, List.forall_mem_singleton]
      refine ⟨isName.1, isName_of_length ?_ (long last)⟩
      rw [String.toList_append, List.mem_append, not_or]
      exact ⟨isName.2.slashless, slashless⟩

/-! ## Edits of echoes -/

theorem exists_of_generate {request : Wire.Request} {edits : List Wire.Edit}
    (generated : generate request = .ok edits) :
    ∀ edit ∈ edits, ∃ name, edit.name = outputName name := by
  intro edit member
  obtain ⟨file, -, made⟩ := Outcome.exists_of_forall₂ (Outcome.mapM_eq_ok.1 generated).flip member
  change Echo.edit file = .ok edit at made
  rw [Echo.edit] at made
  split at made
  · cases made
    exact ⟨file.name, rfl⟩
  · cases made

/-- A name that is made of names is not refused. -/
theorem refusal?_eq_none {edit : Wire.Edit} {parts : List String} (nonempty : parts ≠ [])
    (normal : components edit.name = parts.map .normal) (index : Nat) :
    Output.refusal? index edit = none := by
  have named : edit.name ≠ "" := by
    intro empty
    rw [empty] at normal
    exact nonempty (List.map_eq_nil_iff.1 normal.symm)
  have inward : Inward edit.name := by
    intro c member
    rw [normal] at member
    obtain ⟨part, -, rfl⟩ := List.mem_map.1 member
    exact .inr ⟨part, rfl⟩
  obtain ⟨relative, noParent⟩ := inward_iff.1 inward
  simp [Output.refusal?, named, relative, noParent]

/-- Echoes are named by paths of names only, of which the last has the ending of echoes. So they are
never refused for their names, and only the system can keep them from being written. -/
theorem generate_mergeable {request : Wire.Request} {edits : List Wire.Edit}
    (generated : generate request = .ok edits) :
    (∀ edit ∈ edits, ∃ before last, let parts := before ++ [last ++ ".echo.graphql"]
      edit.name = ofPieces parts ∧ components edit.name = parts.map .normal) ∧
    ∀ directory tree e, (Output.apply directory tree edits).2 = .error e →
      ∃ path cause, e = .system path cause := by
  have named : ∀ edit ∈ edits, ∃ before last, let parts := before ++ [last ++ ".echo.graphql"]
      edit.name = ofPieces parts ∧ components edit.name = parts.map .normal := by
    intro edit member
    obtain ⟨name, isOutput⟩ := exists_of_generate generated edit member
    obtain ⟨before, last, isPath, areNames⟩ := outputName_eq name
    rw [isOutput]
    refine ⟨before, last, isPath, ?_⟩
    rw [isPath]
    exact components_ofPieces (by simp) areNames
  refine ⟨named, fun directory tree e failed => ?_⟩
  by_contra unsystematic
  obtain ⟨index, edit, ⟨found, -⟩, refused⟩ := (Output.apply_error_iff
    fun path cause isSystem => unsystematic ⟨path, cause, isSystem⟩).1 failed
  obtain ⟨before, last, -, normal⟩ := named edit (List.mem_of_getElem? found)
  rw [refusal?_eq_none (by simp) normal] at refused
  cases refused

/-- Of these names, only one has a component that is a name once its ending is cut off. -/
theorem generate_mergeable_hostile :
    let names := [".graphql", "...graphql", "/../.graphql", "", "//a/../b/.graphql"]
    let request : Wire.Request := { generate := names, files := names.map fun name => { name } }
    ∃ edits, generate request = .ok edits ∧
      edits.map Wire.Edit.name = [".echo.graphql", ".echo.graphql", ".echo.graphql",
        ".echo.graphql", "a/b.echo.graphql"] ∧
      ∀ directory tree e, (Output.apply directory tree edits).2 = .error e →
        ∃ path cause, e = .system path cause := by
  intro names request
  have generated : generate request = .ok _ := rfl
  exact ⟨_, generated, by decide, (generate_mergeable generated).2⟩

end Echo

end SdlCompiler
