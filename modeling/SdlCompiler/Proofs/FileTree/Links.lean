import SdlCompiler.Proofs.FileTree.Places

/-!
# Ways through links

The place that a path leads to is told by its text and by the links on the way: `Path.reach`. A
walk through the tree may fail where something is missing, but it ends nowhere else
(`FileTree.Walks.reach`). Where there are no links, it is the place that the text alone tells
(`Path.reach_unlinked`), and where there are none below a directory, names in the directory lead to
the places that they spell (`Path.reach_join_inward`).
-/

namespace SdlCompiler

open Outcome

namespace Path

variable {links : Place → Option String} {place middle last : Place} {limit : Nat} {c : Component}
  {path name : String} {before after rest : List Component}

/-! ## Places -/

/-- What a component leads to from a place. -/
def stride (links : Place → Option String) (place : Place) : Component → FileTree.Stride
  | .normal name =>
    match links (place ++ [name]) with
    | some path => .link path
    | none => .place (place ++ [name])
  | c => .place (step place c)

/-- Where components lead to from a place. Behind a link, `onward` follows the path in it and then
the components that are left. -/
def reachVia (links : Place → Option String) (onward : Place → List Component → Option Place) :
    Place → List Component → Option Place
  | place, [] => some place
  | place, c :: rest =>
    match stride links place c with
    | .place next => reachVia links onward next rest
    | .link path => onward (startOf place path) (steps path ++ rest)

/-- Where components lead to, with at most `limit` links on the way. -/
def reachUpTo (links : Place → Option String) : Nat → Place → List Component → Option Place
  | 0 => reachVia links fun _ _ => none
  | limit + 1 => reachVia links (reachUpTo links limit)

/-- The place that a path leads to from another one, unless there are too many links. -/
def reach (links : Place → Option String) (place : Place) (path : String) : Option Place :=
  reachUpTo links FileTree.linkLimit (startOf place path) (steps path)

/-- The place of the name that a path ends in. If there is a link, it is not followed. -/
def holder (links : Place → Option String) (place : Place) (path : String) : Option Place :=
  match (steps path).getLast? with
  | some (.normal name) =>
    (reachUpTo links FileTree.linkLimit (startOf place path) (steps path).dropLast).map
      (· ++ [name])
  | _ => none

@[simp] theorem reachUpTo_nil : reachUpTo links limit place [] = some place := by
  cases limit <;> rfl

theorem reachUpTo_place {next : Place} (strode : stride links place c = .place next) :
    reachUpTo links limit place (c :: rest) = reachUpTo links limit next rest := by
  cases limit <;> rw [reachUpTo, reachVia, strode]

theorem reachUpTo_exhausted (strode : stride links place c = .link path) :
    reachUpTo links 0 place (c :: rest) = none := by
  rw [reachUpTo, reachVia, strode]

theorem reachUpTo_link (strode : stride links place c = .link path) :
    reachUpTo links (limit + 1) place (c :: rest) =
      reachUpTo links limit (startOf place path) (steps path ++ rest) := by
  rw [reachUpTo, reachVia, strode]

/-- Components are followed one by one, and a link puts others in front of them. The links are
counted down. -/
theorem reach_induction (links : Place → Option String)
    {motive : Nat → Place → List Component → Prop}
    (ended : ∀ limit place, motive limit place [])
    (straight : ∀ limit place c rest next, stride links place c = .place next →
      motive limit next rest → motive limit place (c :: rest))
    (exhausted : ∀ place c rest path, stride links place c = .link path →
      motive 0 place (c :: rest))
    (linked : ∀ limit place c rest path, stride links place c = .link path →
      motive limit (startOf place path) (steps path ++ rest) → motive (limit + 1) place (c :: rest))
    (limit : Nat) (place : Place) (cs : List Component) : motive limit place cs := by
  induction limit generalizing place cs with
  | zero =>
    induction cs generalizing place with
    | nil => exact ended 0 place
    | cons c rest ih =>
      cases strode : stride links place c with
      | place next => exact straight 0 place c rest next strode (ih next)
      | link path => exact exhausted place c rest path strode
  | succ limit behind =>
    induction cs generalizing place with
    | nil => exact ended (limit + 1) place
    | cons c rest ih =>
      cases strode : stride links place c with
      | place next => exact straight (limit + 1) place c rest next strode (ih next)
      | link path => exact linked limit place c rest path strode (behind _ _)

/-- What leads on without a link does so however many links there were. -/
theorem reachUpTo_append (reached : reachUpTo links limit place before = some middle)
    (onward : ∀ left, reachUpTo links left middle after = some last) :
    reachUpTo links limit place (before ++ after) = some last := by
  induction limit, place, before using reach_induction links with
  | ended limit place =>
    cases (reachUpTo_nil.symm.trans reached)
    exact onward limit
  | straight limit place c rest next strode ih =>
    rw [reachUpTo_place strode] at reached
    rw [List.cons_append, reachUpTo_place strode]
    exact ih reached
  | exhausted place c rest path strode =>
    rw [reachUpTo_exhausted strode] at reached
    cases reached
  | linked limit place c rest path strode ih =>
    rw [reachUpTo_link strode] at reached
    rw [List.cons_append, reachUpTo_link strode, ← List.append_assoc]
    exact ih reached

/-- What leads somewhere leads somewhere on the way. -/
theorem exists_reachUpTo (reached : reachUpTo links limit place (before ++ after) = some last) :
    ∃ middle, reachUpTo links limit place before = some middle := by
  induction limit, place, before using reach_induction links with
  | ended limit place => exact ⟨place, reachUpTo_nil⟩
  | straight limit place c rest next strode ih =>
    rw [List.cons_append, reachUpTo_place strode] at reached
    rw [reachUpTo_place strode]
    exact ih reached
  | exhausted place c rest path strode =>
    rw [List.cons_append, reachUpTo_exhausted strode] at reached
    cases reached
  | linked limit place c rest path strode ih =>
    rw [List.cons_append, reachUpTo_link strode, ← List.append_assoc] at reached
    rw [reachUpTo_link strode]
    exact ih reached

/-! ## Places without links -/

/-- From a place below which there is no link, names lead straight down. -/
theorem reachUpTo_names {home : Place} (unlinked : ∀ below ≠ [], links (home ++ below) = none)
    (limit : Nat) (below : List String) :
    reachUpTo links limit home (below.map .normal) = some (home ++ below) := by
  induction below generalizing home with
  | nil => simp
  | cons n rest ih =>
    have strode : stride links home (.normal n) = .place (home ++ [n]) := by
      rw [stride, unlinked [n] (List.cons_ne_nil n [])]
    have deeper : ∀ below ≠ [], links (home ++ [n] ++ below) = none := by
      intro below _
      rw [List.append_assoc]
      exact unlinked _ (List.cons_ne_nil n below)
    rw [List.map_cons, reachUpTo_place strode, ih deeper, List.append_assoc, List.singleton_append]

theorem reachUpTo_unlinked (limit : Nat) (place : Place) (cs : List Component) :
    reachUpTo (fun _ => none) limit place cs = some (cs.foldl step place) := by
  induction cs generalizing place with
  | nil => simp
  | cons c rest ih =>
    have strode : stride (fun _ => none) place c = .place (step place c) := by cases c <;> rfl
    rw [reachUpTo_place strode, ih, List.foldl_cons]

theorem reach_unlinked (place : Place) (path : String) :
    reach (fun _ => none) place path = some (resolve place path) := by
  rw [reach, reachUpTo_unlinked, resolve_eq]

theorem holder_eq_some {here : Place} :
    holder links place path = some here ↔
      ∃ above name parent, steps path = above ++ [.normal name] ∧
        reachUpTo links FileTree.linkLimit (startOf place path) above = some parent ∧
        here = parent ++ [name] := by
  unfold holder
  constructor
  · intro held
    split at held
    · next name isLast =>
      obtain ⟨above, split⟩ := List.getLast?_eq_some_iff.1 isLast
      obtain ⟨parent, reached, rfl⟩ := Option.map_eq_some_iff.1 held
      rw [split, List.dropLast_concat] at reached
      exact ⟨above, name, parent, split, reached, rfl⟩
    · cases held
  · rintro ⟨above, name, parent, split, reached, rfl⟩
    simp [split, reached]

/-- Where there is no link by the name that a path ends in, the path leads to that name. -/
theorem reach_of_holder {here : Place} (held : holder links place path = some here)
    (unlinked : links here = none) : reach links place path = some here := by
  obtain ⟨above, name, parent, split, reached, rfl⟩ := holder_eq_some.1 held
  have strode : stride links parent (.normal name) = .place (parent ++ [name]) := by
    rw [stride, unlinked]
  rw [reach, split]
  exact reachUpTo_append reached fun left => by rw [reachUpTo_place strode, reachUpTo_nil]

/-- A path that stays inside leads from a directory to a place below it, if there is no link
below the directory. -/
theorem reach_join_inward {home : Place} {directory : String} (inward : Inward name)
    (reached : reach links place directory = some home)
    (unlinked : ∀ below ≠ [], links (home ++ below) = none) :
    reach links place (join directory name) = some (home ++ names name) := by
  have relative := (inward_iff.1 inward).1
  rw [reach, startOf_join relative, steps_join relative, steps_inward inward]
  exact reachUpTo_append reached fun left => reachUpTo_names unlinked left (names name)

theorem holder_join_inward {home : Place} {directory : String} (inward : Inward name)
    (named : names name ≠ []) (reached : reach links place directory = some home)
    (unlinked : ∀ below ≠ [], links (home ++ below) = none) :
    holder links place (join directory name) = some (home ++ names name) := by
  have relative := (inward_iff.1 inward).1
  obtain ⟨above, last, split⟩ := List.eq_nil_or_concat (names name) |>.resolve_left named
  refine holder_eq_some.2 ⟨steps directory ++ above.map .normal, last, home ++ above, ?_, ?_, ?_⟩
  · rw [steps_join relative, steps_inward inward, split]
    simp
  · rw [startOf_join relative]
    exact reachUpTo_append reached fun left => reachUpTo_names unlinked left above
  · rw [split, List.concat_eq_append, List.append_assoc]

/-- Where a path from a directory leads somewhere, so does the directory. -/
theorem exists_reach_directory {directory : String} (relative : isAbsolute name = false)
    (reached : reach links place (join directory name) = some last) :
    ∃ home, reach links place directory = some home := by
  rw [reach, startOf_join relative, steps_join relative] at reached
  exact exists_reachUpTo reached

end Path

/-! ## Walks -/

namespace FileTree

variable {tree : FileTree} {path : String} {place start middle : Place} {purpose : Purpose}
  {limit : Nat} {piece : String} {rest pieces more : List String} {s : Stride}

/-- What a piece leads to from a directory. -/
inductive Strides (tree : FileTree) (purpose : Purpose) (place : Place) (piece : String)
    (rest : List String) : Stride → Prop
  | idle : Path.component? piece = none → Strides tree purpose place piece rest (.place place)
  | up : Path.component? piece = some .parent →
      Strides tree purpose place piece rest (.place place.dropLast)
  | link {path : String} : Path.component? piece = some (.normal piece) →
      ¬(purpose = .create ∧ rest ≠ [] ∧ ∀ later ∈ rest, later = "") → checkName piece = .ok () →
      tree.link? (place ++ [piece]) = some path → Strides tree purpose place piece rest (.link path)
  | name : Path.component? piece = some (.normal piece) →
      ¬(purpose = .create ∧ rest ≠ [] ∧ ∀ later ∈ rest, later = "") → checkName piece = .ok () →
      tree.link? (place ++ [piece]) = none →
      (tree.entry? (place ++ [piece])).isSome = true ∨ purpose = .create ∧ rest = [] →
      Strides tree purpose place piece rest (.place (place ++ [piece]))

theorem strides_of_stride (isDirectory : tree.entry? place = some .directory)
    (strode : tree.stride purpose place piece rest = .ok s) :
    Strides tree purpose place piece rest s := by
  rw [stride, isDirectory] at strode
  dsimp only at strode
  by_cases idle : piece = "" ∨ piece = "."
  · rw [if_pos idle] at strode
    cases strode
    exact .idle (Path.component?_eq_none.2 idle)
  · rw [if_neg idle] at strode
    by_cases up : piece = ".."
    · rw [if_pos up] at strode
      cases strode
      exact .up (Path.component?_eq_some.2 (.inl ⟨rfl, up⟩))
    · rw [if_neg up] at strode
      have named : Path.component? piece = some (.normal piece) :=
        Path.component?_eq_some.2 (.inr ⟨rfl, (not_or.1 idle).1, (not_or.1 idle).2, up⟩)
      split at strode
      · cases strode
      · next slashless =>
        obtain ⟨⟨⟩, short, strode⟩ := bind_eq_ok.1 strode
        cases linked : tree.link? (place ++ [piece]) with
        | some path =>
          rw [linked] at strode
          cases strode
          exact .link named slashless short linked
        | none =>
          rw [linked] at strode
          dsimp only at strode
          split at strode
          · next there =>
            cases strode
            exact .name named slashless short linked there
          · cases strode

theorem stride_eq_ok :
    tree.stride purpose place piece rest = .ok s ↔
      tree.entry? place = some .directory ∧ Strides tree purpose place piece rest s := by
  constructor
  · intro strode
    have isDirectory : tree.entry? place = some .directory := by
      unfold stride at strode
      split at strode
      · cases strode
      · cases strode
      · next isDirectory => exact isDirectory
    exact ⟨isDirectory, strides_of_stride isDirectory strode⟩
  · rintro ⟨isDirectory, strides⟩
    rw [stride, isDirectory]
    cases strides with
    | idle idle => exact if_pos (Path.component?_eq_none.1 idle)
    | up up =>
      obtain rfl : piece = ".." := by simpa [Path.component?_eq_some] using up
      rfl
    | link named slashless short linked =>
      rcases Path.component?_eq_some.1 named with ⟨⟨⟩, -⟩ | ⟨-, notEmpty, notDot, notUp⟩
      dsimp only
      rw [if_neg (not_or.2 ⟨notEmpty, notDot⟩), if_neg notUp, if_neg slashless]
      exact bind_eq_ok.2 ⟨(), short, by rw [linked]⟩
    | name named slashless short unlinked there =>
      rcases Path.component?_eq_some.1 named with ⟨⟨⟩, -⟩ | ⟨-, notEmpty, notDot, notUp⟩
      dsimp only
      rw [if_neg (not_or.2 ⟨notEmpty, notDot⟩), if_neg notUp, if_neg slashless]
      refine bind_eq_ok.2 ⟨(), short, ?_⟩
      rw [unlinked]
      exact if_pos there

/-- A piece leads where its component does. -/
theorem Strides.leads (strides : Strides tree purpose place piece rest s) :
    Path.component? piece = none ∧ s = .place place ∨
      ∃ c, Path.component? piece = some c ∧ Path.stride tree.link? place c = s := by
  cases strides with
  | idle idle => exact .inl ⟨idle, rfl⟩
  | up up => exact .inr ⟨_, up, rfl⟩
  | link named _ _ linked => exact .inr ⟨_, named, by rw [Path.stride, linked]⟩
  | name named _ _ unlinked _ => exact .inr ⟨_, named, by rw [Path.stride, unlinked]⟩

/-- A walk that goes well, stride by stride. A link puts the pieces of its path before those that
are left. -/
inductive Walks (tree : FileTree) (purpose : Purpose) : Nat → Place → List String → Place → Prop
  | ended {limit : Nat} {place : Place} : Walks tree purpose limit place [] place
  | straight {limit : Nat} {start next place : Place} {piece : String} {rest : List String} :
      tree.stride purpose start piece rest = .ok (.place next) →
      Walks tree purpose limit next rest place →
      Walks tree purpose limit start (piece :: rest) place
  | linked {limit : Nat} {start place : Place} {piece path : String} {rest : List String} :
      tree.stride purpose start piece rest = .ok (.link path) →
      Walks tree purpose limit (Path.startOf start path) (Path.pieces path ++ rest) place →
      Walks tree purpose (limit + 1) start (piece :: rest) place

theorem walkVia_eq_ok {onward : Place → List String → Except SystemError Place}
    (behind : ∀ start pieces, onward start pieces = .ok place ↔
      ∃ left, limit = left + 1 ∧ Walks tree purpose left start pieces place)
    (start : Place) (pieces : List String) :
    tree.walkVia purpose onward start pieces = .ok place ↔
      Walks tree purpose limit start pieces place := by
  induction pieces generalizing start with
  | nil =>
    constructor
    · rintro ⟨⟩
      exact .ended
    · rintro ⟨⟩
      rfl
  | cons piece rest ih =>
    rw [walkVia, bind_eq_ok]
    constructor
    · rintro ⟨s, strode, walked⟩
      cases s with
      | place next => exact .straight strode ((ih next).1 walked)
      | link path =>
        obtain ⟨left, rfl, walks⟩ := (behind _ _).1 walked
        exact .linked strode walks
    · intro walks
      cases walks with
      | straight strode walks => exact ⟨_, strode, (ih _).2 walks⟩
      | linked strode walks => exact ⟨_, strode, (behind _ _).2 ⟨_, rfl, walks⟩⟩

theorem walkUpTo_eq_ok :
    tree.walkUpTo purpose limit start pieces = .ok place ↔
      Walks tree purpose limit start pieces place := by
  induction limit generalizing start pieces with
  | zero => exact walkVia_eq_ok (by simp) start pieces
  | succ limit ih =>
    exact walkVia_eq_ok (fun _ _ => by simp [ih]) start pieces

/-- A walk leads where the components of its pieces do. -/
theorem Walks.reachUpTo (walks : Walks tree purpose limit start pieces place) :
    Path.reachUpTo tree.link? limit start (pieces.filterMap Path.component?) = some place := by
  induction walks with
  | ended => exact Path.reachUpTo_nil
  | straight strode _ ih =>
    rcases (stride_eq_ok.1 strode).2.leads with ⟨idle, ⟨⟩⟩ | ⟨c, component, leads⟩
    · rw [List.filterMap_cons_none idle]
      exact ih
    · rw [List.filterMap_cons_some component, Path.reachUpTo_place leads]
      exact ih
  | linked strode _ ih =>
    rcases (stride_eq_ok.1 strode).2.leads with ⟨-, ⟨⟩⟩ | ⟨c, component, leads⟩
    rw [List.filterMap_append] at ih
    rw [List.filterMap_cons_some component, Path.reachUpTo_link leads]
    exact ih

/-- A piece that leads nowhere leaves a walk in a directory. -/
theorem Walks.directory_of_idle {before : List String} {last : String}
    (walks : Walks tree purpose limit start (before ++ [last]) place)
    (idle : Path.component? last = none) : tree.entry? place = some .directory := by
  generalize split : before ++ [last] = pieces at walks
  induction walks generalizing before with
  | ended => simp at split
  | straight strode walks ih =>
    cases before with
    | nil =>
      cases split
      obtain ⟨isDirectory, strides⟩ := stride_eq_ok.1 strode
      rcases strides.leads with ⟨-, ⟨⟩⟩ | ⟨c, component, -⟩
      · cases walks
        exact isDirectory
      · rw [idle] at component
        cases component
    | cons piece rest =>
      cases split
      exact ih rfl
  | linked strode _ ih =>
    cases before with
    | nil =>
      cases split
      rcases (stride_eq_ok.1 strode).2.leads with ⟨-, ⟨⟩⟩ | ⟨c, component, -⟩
      rw [idle] at component
      cases component
    | cons piece rest =>
      cases split
      exact ih (List.append_assoc _ rest [last])

/-- What only has to be there may be followed by anything. -/
theorem stride_find (rest rest' : List String) :
    tree.stride .find place piece rest = tree.stride .find place piece rest' := by
  simp [stride]

theorem Walks.append (walks : Walks tree .find limit start pieces middle)
    (onward : ∀ left, Walks tree .find left middle more place) :
    Walks tree .find limit start (pieces ++ more) place := by
  induction walks with
  | ended => exact onward _
  | straight strode _ ih =>
    rw [stride_find] at strode
    exact .straight strode (ih onward)
  | linked strode _ ih =>
    rw [stride_find] at strode
    have later := ih onward
    rw [List.append_assoc] at later
    exact .linked strode later

theorem Walks.split (walks : Walks tree .find limit start (pieces ++ more) place) :
    ∃ left middle, Walks tree .find limit start pieces middle ∧
      Walks tree .find left middle more place := by
  generalize whole : pieces ++ more = all at walks
  induction walks generalizing pieces with
  | ended =>
    obtain ⟨rfl, rfl⟩ := List.append_eq_nil_iff.1 whole
    exact ⟨0, _, .ended, .ended⟩
  | straight strode walks ih =>
    cases pieces with
    | nil =>
      cases whole
      exact ⟨_, _, .ended, .straight strode walks⟩
    | cons piece rest =>
      cases whole
      obtain ⟨left, middle, first, second⟩ := ih rfl
      rw [stride_find] at strode
      exact ⟨left, middle, .straight strode first, second⟩
  | linked strode walks ih =>
    cases pieces with
    | nil =>
      cases whole
      exact ⟨_, _, .ended, .linked strode walks⟩
    | cons piece rest =>
      cases whole
      obtain ⟨left, middle, first, second⟩ := ih (List.append_assoc _ rest more)
      rw [stride_find] at strode
      exact ⟨left, middle, .linked strode first, second⟩

theorem walks_idle (isDirectory : tree.entry? start = some .directory)
    (idle : ∀ piece ∈ pieces, Path.component? piece = none) (limit : Nat) :
    Walks tree .find limit start pieces start := by
  induction pieces with
  | nil => exact .ended
  | cons piece rest ih =>
    obtain ⟨here, later⟩ := List.forall_mem_cons.1 idle
    exact .straight (stride_eq_ok.2 ⟨isDirectory, .idle here⟩) (ih later)

/-! ## Paths -/

theorem locate_eq_ok :
    tree.locate path = .ok place ↔ checkPath path = .ok () ∧
      Walks tree .find linkLimit (Path.startOf tree.current path) (Path.pieces path) place := by
  rw [locate, bind_eq_ok, walk, walkUpTo_eq_ok]
  exact ⟨fun ⟨_, valid, walks⟩ => ⟨valid, walks⟩, fun ⟨valid, walks⟩ => ⟨_, valid, walks⟩⟩

theorem locateNew_eq_ok :
    tree.locateNew path = .ok place ↔ checkPath path = .ok () ∧
      Walks tree .create linkLimit (Path.startOf tree.current path) (Path.pieces path) place := by
  rw [locateNew, bind_eq_ok, walk, walkUpTo_eq_ok]
  exact ⟨fun ⟨_, valid, walks⟩ => ⟨valid, walks⟩, fun ⟨valid, walks⟩ => ⟨_, valid, walks⟩⟩

/-- The place that a path leads to is the one that its text and the links tell. -/
theorem Walks.reach
    (walks : Walks tree purpose linkLimit (Path.startOf tree.current path) (Path.pieces path)
      place) :
    Path.reach tree.link? tree.current path = some place :=
  walks.reachUpTo

/-- A path to what is no directory ends in a component. -/
theorem Walks.endsInComponent
    (walks : Walks tree purpose linkLimit (Path.startOf tree.current path) (Path.pieces path)
      place)
    (noDirectory : tree.entry? place ≠ some .directory) : Path.EndsInComponent path := by
  have split := List.dropLast_concat_getLast (Path.pieces_ne_nil path)
  refine ⟨_, _, [], split.symm, fun idle => ?_, by simp⟩
  rw [← split] at walks
  exact noDirectory (walks.directory_of_idle idle)

/-- The parent of a path is where the pieces before its last component lead, if that is a
directory. -/
theorem locateParent_iff {last : String} {above : List String} {found : Place × Option String}
    (valid : checkPath path = .ok ())
    (stripped : (Path.pieces path).reverse.dropWhile (· = "") = last :: above) :
    tree.locateParent path = .ok found ↔
      Walks tree .find linkLimit (Path.startOf tree.current path) above.reverse found.1 ∧
        tree.entry? found.1 = some .directory ∧
        found.2 = if last = "." ∨ last = ".." then none else some last := by
  obtain ⟨parent, name⟩ := found
  have dot : Path.component? "." = none := Path.component?_eq_none.2 (.inr rfl)
  have ends : tree.walk .find path (above.reverse ++ ["."]) = .ok parent ↔
      Walks tree .find linkLimit (Path.startOf tree.current path) above.reverse parent ∧
        tree.entry? parent = some .directory := by
    rw [walk, walkUpTo_eq_ok]
    constructor
    · intro walks
      have isDirectory := walks.directory_of_idle dot
      obtain ⟨left, middle, reached, onward⟩ := walks.split
      have stays := onward.reachUpTo
      rw [List.filterMap_cons_none dot, List.filterMap_nil, Path.reachUpTo_nil] at stays
      exact ⟨Option.some.inj stays ▸ reached, isDirectory⟩
    · rintro ⟨walks, isDirectory⟩
      exact walks.append fun left => walks_idle isDirectory (by simp [dot]) left
  rw [locateParent, valid, stripped]
  simp only [bind_eq_ok, pure_eq_ok, Prod.mk.injEq]
  constructor
  · rintro ⟨-, -, middle, walked, rfl, named⟩
    exact ⟨(ends.1 walked).1, (ends.1 walked).2, named.symm⟩
  · rintro ⟨walks, isDirectory, named⟩
    exact ⟨(), trivial, parent, ends.2 ⟨walks, isDirectory⟩, rfl, named.symm⟩

/-- What holds a path's last component, if that is a name. Only slashes stand after the name. -/
theorem locateParent_eq_ok {parent : Place} {name : String}
    (located : tree.locateParent path = .ok (parent, some name)) :
    checkPath path = .ok () ∧ ∃ above after, Path.pieces path = above ++ name :: after ∧
      Path.component? name = some (.normal name) ∧
      (∀ piece ∈ after, Path.component? piece = none) ∧
      Walks tree .find linkLimit (Path.startOf tree.current path) above parent ∧
      tree.entry? parent = some .directory := by
  obtain ⟨⟨⟩, valid, -⟩ := bind_eq_ok.1 located
  refine ⟨valid, ?_⟩
  cases stripped : (Path.pieces path).reverse.dropWhile (· = "") with
  | nil =>
    rw [locateParent, valid, stripped] at located
    cases located
  | cons last above =>
    obtain ⟨notEmpty, after, whole, slashes⟩ := Path.exists_of_stripped stripped
    obtain ⟨reached, isDirectory, named⟩ := (locateParent_iff valid stripped).1 located
    dsimp only at reached isDirectory named
    split at named
    · cases named
    · next dots =>
      cases named
      exact ⟨above.reverse, after, whole,
        Path.component?_eq_some.2 (.inr ⟨rfl, notEmpty, not_or.1 dots⟩),
        fun piece member => Path.component?_eq_none.2 (.inl (slashes piece member)),
        reached, isDirectory⟩

theorem locateParent_eq_some {parent : Place} {name : String}
    (located : tree.locateParent path = .ok (parent, some name)) :
    Path.holder tree.link? tree.current path = some (parent ++ [name]) := by
  obtain ⟨-, above, after, whole, named, idle, reached, -⟩ := locateParent_eq_ok located
  refine Path.holder_eq_some.2 ⟨above.filterMap Path.component?, name, parent, ?_,
    reached.reachUpTo, rfl⟩
  rw [Path.steps, whole, List.filterMap_append, List.filterMap_cons_some named,
    List.filterMap_eq_nil_iff.2 idle]

/-! ## Directories without links -/

/-- There is no link below the place that a path leads to. There may be some on the way to it. -/
def UnlinkedBelow (tree : FileTree) (directory : String) : Prop :=
  ∀ home below, Path.reach tree.link? tree.current directory = some home → below ≠ [] →
    tree.link? (home ++ below) = none

theorem unlinkedBelow_iff {directory : String} :
    tree.UnlinkedBelow directory ↔
      ∀ home ∈ Path.reach tree.link? tree.current directory, ∀ link ∈ tree.links,
        ¬(home <+: link.1 ∧ link.1 ≠ home) := by
  constructor
  · rintro unlinked home reached ⟨place, path⟩ isLink ⟨⟨below, rfl⟩, deeper⟩
    have unfound := unlinked home below reached fun empty => deeper (by rw [empty, List.append_nil])
    rw [link?, List.lookup_eq_none_iff] at unfound
    simpa using unfound _ isLink
  · intro elsewhere home below reached nonempty
    rw [link?, List.lookup_eq_none_iff]
    intro link isLink
    refine bne_iff_ne.2 fun same => elsewhere home reached link isLink ?_
    rw [← same]
    exact ⟨List.prefix_append home below, fun same => nonempty (List.append_right_eq_self.1 same)⟩

instance (tree : FileTree) (directory : String) : Decidable (tree.UnlinkedBelow directory) :=
  decidable_of_iff _ unlinkedBelow_iff.symm

/-- A path from such a directory ends in no link, and leads straight to its place. -/
theorem UnlinkedBelow.reach_join {directory name : String} (unlinked : tree.UnlinkedBelow directory)
    (inward : Path.Inward name) (named : Path.names name ≠ [])
    (reached : Path.reach tree.link? tree.current (Path.join directory name) = some place) :
    Path.holder tree.link? tree.current (Path.join directory name) = some place ∧
      tree.link? place = none := by
  obtain ⟨home, isHome⟩ := Path.exists_reach_directory (Path.inward_iff.1 inward).1 reached
  have clear : ∀ below ≠ [], tree.link? (home ++ below) = none := fun below =>
    unlinked home below isHome
  rw [Path.reach_join_inward inward isHome clear, Option.some.injEq] at reached
  subst reached
  exact ⟨Path.holder_join_inward inward named isHome clear, clear _ named⟩

end FileTree

end SdlCompiler
