import SdlCompiler.FileTree.Basic
import SdlCompiler.Proofs.Outcome

/-!
# Where paths lead

Where there are no links, the text of a path tells the place that it leads to: `Path.resolve`. A
path that stays inside leads from a directory to places below it (`Path.resolve_join_inward`).
-/

namespace SdlCompiler

open Outcome

/-! ## Pieces -/

theorem Text.split_ne_nil {α : Type} [DecidableEq α] (mark : α) (text : List α) :
    Text.split mark text ≠ [] := by
  cases text with
  | nil => simp [Text.split]
  | cons c rest =>
    unfold Text.split
    split
    · simp
    · split <;> simp

theorem Text.split_append {α : Type} [DecidableEq α] (mark : α) (before after : List α) :
    Text.split mark (before ++ mark :: after) =
      Text.split mark before ++ Text.split mark after := by
  induction before with
  | nil => simp [Text.split]
  | cons c rest ih =>
    rw [List.cons_append, Text.split, Text.split, ih]
    split
    · rfl
    · cases pieces : Text.split mark rest with
      | nil => exact absurd pieces (Text.split_ne_nil mark rest)
      | cons piece more => rfl

namespace Path

variable {path name piece : String} {c : Component}

theorem pieces_ne_nil (path : String) : pieces path ≠ [] := by
  unfold pieces
  simpa using Text.split_ne_nil '/' path.toList

theorem pieces_slash (base name : String) :
    pieces (base ++ "/" ++ name) = pieces base ++ pieces name := by
  unfold pieces
  rw [← List.map_append, ← Text.split_append]
  simp

/-- A path starts from the root if its first piece is empty. -/
theorem head_pieces {first : String} {rest : List String} (nonempty : path ≠ "")
    (split : pieces path = first :: rest) : first = "" ↔ isAbsolute path = true := by
  unfold pieces at split
  unfold isAbsolute
  cases text : path.toList with
  | nil => exact absurd (String.toList_eq_nil_iff.1 text) nonempty
  | cons c rest =>
    rw [text, Text.split] at split
    by_cases slash : c = '/'
    · rw [if_pos slash, List.map_cons] at split
      obtain ⟨rfl, -⟩ := List.cons.inj split
      simp [slash]
    · rw [if_neg slash] at split
      cases pieces : Text.split '/' rest with
      | nil => exact absurd pieces (Text.split_ne_nil '/' rest)
      | cons piece more =>
        rw [pieces] at split
        obtain ⟨rfl, -⟩ := List.cons.inj split
        simp [slash]

theorem component?_eq_none : component? piece = none ↔ piece = "" ∨ piece = "." := by
  unfold component?
  split
  · next idle => simp [idle]
  · next named =>
    split <;> simp [named]

theorem component?_eq_some :
    component? piece = some c ↔
      (c = .parent ∧ piece = "..") ∨
        (c = .normal piece ∧ piece ≠ "" ∧ piece ≠ "." ∧ piece ≠ "..") := by
  unfold component?
  split
  · next idle =>
    rcases idle with rfl | rfl <;> simp
  · next named =>
    rw [not_or] at named
    split
    · next up => simp [up, @eq_comm _ Component.parent]
    · next down => simp [named, down, @eq_comm _ (Component.normal piece)]

/-- The last piece that is not empty, and the empty ones after it. -/
theorem exists_of_stripped {pieces before : List String} {last : String}
    (stripped : pieces.reverse.dropWhile (· = "") = last :: before) :
    last ≠ "" ∧
      ∃ after, pieces = before.reverse ++ last :: after ∧ ∀ empty ∈ after, empty = "" := by
  constructor
  · have first := List.head?_dropWhile_not (· = "") pieces.reverse
    rw [stripped] at first
    simpa using first
  · have split := List.takeWhile_append_dropWhile (p := (· = "")) (l := pieces.reverse)
    rw [stripped] at split
    refine ⟨(pieces.reverse.takeWhile (· = "")).reverse, ?_, fun empty member => ?_⟩
    · simpa using (congrArg List.reverse split).symm
    · simpa using List.all_eq_true.1 List.all_takeWhile empty (List.mem_reverse.1 member)

/-- The components of a path are those of its pieces, but for one at its start. -/
theorem components_eq (path : String) :
    components path =
      (if isAbsolute path then [.root] else []) ++
        (if (pieces path).head? = some "." then [.current] else []) ++
        (pieces path).filterMap component? := by
  by_cases nonempty : path = ""
  · subst nonempty
    decide
  · cases split : pieces path with
    | nil => exact absurd split (pieces_ne_nil path)
    | cons first rest =>
      have absolute := head_pieces nonempty split
      rw [components, if_neg nonempty, split]
      by_cases root : first = ""
      · subst root
        simp [absolute.1 rfl, component?]
      · have relative : isAbsolute path = false := by simpa [root] using absolute
        by_cases current : first = "."
        · subst current
          simp [relative, component?]
        · cases component : component? first <;> simp [root, current, relative, component]

theorem mem_components_iff :
    c ∈ components path ↔
      (c = .root ∧ isAbsolute path = true) ∨ (c = .current ∧ (pieces path).head? = some ".") ∨
        ∃ piece ∈ pieces path, component? piece = some c := by
  rw [components_eq, List.mem_append, List.mem_append, List.mem_filterMap, or_assoc]
  refine or_congr ?_ (or_congr_left ?_)
  · split <;> simp [*]
  · split <;> simp [*]

/-! ## Resolution -/

/-- Where a component leads to from a place. -/
def step (place : Place) : Component → Place
  | .root => []
  | .current => place
  | .parent => place.dropLast
  | .normal name => place ++ [name]

/-- The place that a path leads to from another one where there are no links. -/
def resolve (place : Place) (path : String) : Place :=
  (components path).foldl step place

/-- The components of a path that lead from where it starts. -/
def steps (path : String) : List Component :=
  (pieces path).filterMap component?

theorem resolve_eq (place : Place) (path : String) :
    resolve place path = (steps path).foldl step (startOf place path) := by
  unfold resolve steps startOf
  rw [components_eq, List.foldl_append, List.foldl_append]
  congr 1
  split <;> split <;> rfl

/-! ## Paths that stay inside -/

/-- A path of names and of components that lead nowhere. -/
def Inward (path : String) : Prop :=
  ∀ c ∈ components path, c = .current ∨ ∃ name, c = .normal name

theorem inward_iff : Inward path ↔ isAbsolute path = false ∧ ".." ∉ pieces path := by
  constructor
  · intro inward
    constructor
    · cases absolute : isAbsolute path with
      | false => rfl
      | true => simpa using inward .root (mem_components_iff.2 (.inl ⟨rfl, absolute⟩))
    · intro up
      simpa using inward .parent (mem_components_iff.2 (.inr (.inr ⟨"..", up, rfl⟩)))
  · rintro ⟨relative, noParent⟩ c member
    rcases mem_components_iff.1 member with ⟨-, absolute⟩ | ⟨rfl, -⟩ | ⟨piece, present, component⟩
    · rw [relative] at absolute
      cases absolute
    · exact .inl rfl
    · rcases component?_eq_some.1 component with ⟨-, rfl⟩ | ⟨rfl, -⟩
      · exact absurd present noParent
      · exact .inr ⟨piece, rfl⟩

/-- Such a path leads from name to name. -/
theorem steps_inward (inward : Inward name) : steps name = (names name).map .normal := by
  have parts : ∀ c ∈ steps name, ∃ n, c = .normal n := by
    intro c member
    obtain ⟨piece, present, component⟩ := List.mem_filterMap.1 member
    rcases inward c (mem_components_iff.2 (.inr (.inr ⟨piece, present, component⟩))) with
      rfl | named
    · simp [component?_eq_some] at component
    · exact named
  have same : names name = (steps name).filterMap Component.name? := by
    unfold names steps
    rw [components_eq]
    split <;> split <;> rfl
  rw [same]
  generalize steps name = cs at parts
  induction cs with
  | nil => rfl
  | cons c rest ih =>
    obtain ⟨⟨n, rfl⟩, later⟩ := List.forall_mem_cons.1 parts
    exact congrArg (Component.normal n :: ·) (ih later)

theorem foldl_step_normal (place : Place) (below : List String) :
    (below.map Component.normal).foldl step place = place ++ below := by
  induction below generalizing place with
  | nil => rw [List.append_nil]; rfl
  | cons n rest ih =>
    rw [List.map_cons, List.foldl_cons, ih]
    exact List.append_assoc place [n] rest

theorem resolve_inward (inward : Inward name) (place : Place) :
    resolve place name = place ++ names name := by
  rw [resolve_eq, steps_inward inward, foldl_step_normal, startOf, (inward_iff.1 inward).1]
  rfl

/-- Without a name among its components, such a path has only pieces that lead nowhere. -/
theorem component?_of_names_eq_nil (inward : Inward name) (nameless : names name = [])
    (member : piece ∈ pieces name) : component? piece = none := by
  cases component : component? piece with
  | none => rfl
  | some c =>
    have present := mem_components_iff.2 (.inr (.inr ⟨piece, member, component⟩))
    rcases inward c present with rfl | ⟨n, rfl⟩
    · simp [component?_eq_some] at component
    · have named : n ∈ names name := List.mem_filterMap.2 ⟨_, present, rfl⟩
      rw [nameless] at named
      cases named

/-! ## Paths from a directory -/

theorem isAbsolute_append {directory : String} (nonempty : directory ≠ "") (rest : String) :
    isAbsolute (directory ++ rest) = isAbsolute directory := by
  unfold isAbsolute
  rw [String.toList_append, List.head?_append_of_ne_nil]
  exact fun empty => nonempty (String.toList_eq_nil_iff.1 empty)

theorem isAbsolute_join (relative : isAbsolute name = false) (directory : String) :
    isAbsolute (join directory name) = isAbsolute directory := by
  unfold join
  by_cases nonempty : directory = ""
  · subst nonempty
    rw [if_pos (.inr rfl), relative]
    rfl
  · rw [if_neg (by simp [relative, nonempty])]
    split
    · exact isAbsolute_append nonempty name
    · rw [String.append_assoc]
      exact isAbsolute_append nonempty _

theorem exists_of_endsInSlash {directory : String} (slash : endsInSlash directory = true) :
    ∃ base, directory = base ++ "/" := by
  unfold endsInSlash at slash
  obtain ⟨base, split⟩ := List.getLast?_eq_some_iff.1 (beq_iff_eq.1 slash)
  exact ⟨String.ofList base, String.toList_injective (by simp [split])⟩

/-- What a directory puts before the pieces of a path leads to the directory. -/
theorem pieces_join (relative : isAbsolute name = false) (directory : String) :
    ∃ before, pieces (join directory name) = before ++ pieces name ∧
      before.filterMap component? = (pieces directory).filterMap component? := by
  unfold join
  by_cases nonempty : directory = ""
  · subst nonempty
    exact ⟨[], by simp, by decide⟩
  · rw [if_neg (by simp [relative, nonempty])]
    split
    · next slash =>
      obtain ⟨base, rfl⟩ := exists_of_endsInSlash slash
      refine ⟨pieces base, pieces_slash base name, ?_⟩
      have split := pieces_slash base ""
      have empty : pieces "" = [""] := by decide
      rw [String.append_empty, empty] at split
      rw [split, List.filterMap_append]
      simp [component?]
    · exact ⟨pieces directory, pieces_slash directory name, rfl⟩

theorem steps_join (relative : isAbsolute name = false) (directory : String) :
    steps (join directory name) = steps directory ++ steps name := by
  obtain ⟨before, split, same⟩ := pieces_join relative directory
  unfold steps
  rw [split, List.filterMap_append, same]

theorem startOf_join (relative : isAbsolute name = false) (place : Place) (directory : String) :
    startOf place (join directory name) = startOf place directory := by
  unfold startOf
  rw [isAbsolute_join relative]

theorem resolve_join (relative : isAbsolute name = false) (place : Place) (directory : String) :
    resolve place (join directory name) = resolve (resolve place directory) name := by
  rw [resolve_eq, resolve_eq _ name, resolve_eq _ directory, startOf_join relative,
    steps_join relative, List.foldl_append, startOf, startOf, relative]
  rfl

theorem resolve_join_inward (inward : Inward name) (place : Place) (directory : String) :
    resolve place (join directory name) = resolve place directory ++ names name := by
  rw [resolve_join (inward_iff.1 inward).1, resolve_inward inward]

/-- Apart from slashes, the path ends in a component. -/
def EndsInComponent (path : String) : Prop :=
  ∃ before piece after, pieces path = before ++ piece :: after ∧
    component? piece ≠ none ∧ ∀ empty ∈ after, empty = ""

/-- Where a path from a directory ends in a component, that component is not one of the
directory. -/
theorem names_ne_nil (inward : Inward name) (nonempty : name ≠ "") {directory : String}
    (ends : EndsInComponent (join directory name)) : names name ≠ [] := by
  intro nameless
  obtain ⟨before, piece, after, split, component, slashes⟩ := ends
  have relative := (inward_iff.1 inward).1
  obtain ⟨above, joined, -⟩ := pieces_join relative directory
  -- The first piece of the name is not empty, so what ends the path is a piece of the name.
  obtain ⟨first, rest, pieces⟩ := List.exists_cons_of_ne_nil (pieces_ne_nil name)
  have notEmpty : first ≠ "" := by
    intro empty
    rw [(head_pieces nonempty pieces).1 empty] at relative
    cases relative
  have member : piece ∈ Path.pieces name := by
    rcases List.append_eq_append_iff.1 (split.symm.trans joined) with
      ⟨more, -, tail⟩ | ⟨more, -, tail⟩
    · cases more with
      | nil =>
        rw [List.nil_append] at tail
        rw [← tail]
        exact List.mem_cons_self
      | cons p more =>
        obtain ⟨-, tail⟩ := List.cons.inj tail
        refine absurd (slashes first ?_) notEmpty
        rw [tail, pieces]
        simp
    · simp [tail]
  exact component (component?_of_names_eq_nil inward nameless member)

end Path

end SdlCompiler
