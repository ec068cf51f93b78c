import SdlCompiler.Proofs.FileTree.Keeping
import SdlCompiler.Proofs.Output.Confinement

/-!
# Edits that start afresh

Where the first edit of each file writes the file, nothing of what was there before is left in the
files of a response. Two runs of such edits are compared file by file (`Draft.Agree`): a file that
an edit of both runs was about has the same contents in both, and the first edit that is about a
file brings it to that.

This needs output directories without links. Two names may lead to one file where there is a link,
and a link that content is inserted at gives way to a file.
-/

namespace SdlCompiler.Output

open Outcome

variable {directory path : String} {tree other after after' later : FileTree}
  {previous : Option String} {index : Nat} {edit : Wire.Edit} {edits : List Wire.Edit}
  {current current' home home' place : Place} {file : List String} {last : Option (List String)}
  {seen : List (List String)} {draft draft' first first' second second' : Draft}

/-! ## The files of a response -/

/-- An edit that writes a file, whatever was there. -/
def IsWrite (edit : Wire.Edit) : Prop :=
  edit.name ≠ "" ∧ edit.insertionPoint = ""

instance (edit : Wire.Edit) : Decidable (IsWrite edit) :=
  inferInstanceAs (Decidable (_ ∧ _))

/-- The file that an edit is about, by the names on the way to it from the output directory. Names
that differ in dots and slashes only lead to the same file. An edit without a name is about the
file of the edit before. -/
def aim? (last : Option (List String)) (edit : Wire.Edit) : Option (List String) :=
  if edit.name = "" then last else some (Path.names edit.name)

/-- Edits with the files that they are about. -/
def aimed (last : Option (List String)) : List Wire.Edit → List (List String × Wire.Edit)
  | [] => []
  | edit :: rest =>
    match aim? last edit with
    | some file => (file, edit) :: aimed (some file) rest
    | none => aimed none rest

/-- The first edit that is about a file writes it, for every file of the response. -/
def WritesFirst (edits : List Wire.Edit) : Prop :=
  ∀ aim ∈ aimed none edits, ∀ edit ∈ (aimed none edits).lookup aim.1, IsWrite edit

instance (edits : List Wire.Edit) : Decidable (WritesFirst edits) :=
  inferInstanceAs (Decidable (∀ aim ∈ _, ∀ edit ∈ _, IsWrite edit))

/-! ## One edit -/

/-- The contents of the file of an edit, by those before it. -/
def revised? (edit : Wire.Edit) (old : Option (List UInt8)) : Option (List UInt8) :=
  if edit.name = "" then old.map (· ++ edit.content.toUTF8.toList)
  else if edit.insertionPoint = "" then some edit.content.toUTF8.toList
  else old.map (inject edit.insertionPoint edit.content)

theorem revised?_of_isWrite (writes : IsWrite edit) (old old' : Option (List UInt8)) :
    revised? edit old = revised? edit old' := by
  simp [revised?, writes.1, writes.2]

/-- A draft with an output directory that has no links in it, and the file that was set last by its
names from the directory. -/
structure Draft.Tracks (current : Place) (directory : String) (home : Place)
    (last : Option (List String)) (draft : Draft) : Prop where
  reached : Path.reach draft.links current directory = some home
  unlinked : ∀ below ≠ [], draft.links (home ++ below) = none
  last : ∀ path, draft.last = some path → ∃ file, last = some file ∧ file ≠ [] ∧
    Path.reach draft.links current path = some (home ++ file)

/-- An edit sets the contents of the file that it is about, and reads no other file. -/
theorem Draft.Tracks.tabled?_eq_some (tracks : draft.Tracks current directory home last)
    (tabled : tabled? current directory draft edit = some draft') :
    ∃ path file content, aim? last edit = some file ∧ file ≠ [] ∧
      Path.reach draft.links current path = some (home ++ file) ∧
      revised? edit (draft.contents (home ++ file)) = some content ∧
      draft' = draft.set path (home ++ file) content := by
  unfold tabled? at tabled
  split at tabled
  · next named =>
    obtain ⟨path, found, tabled⟩ := Option.bind_eq_some_iff.1 tabled
    obtain ⟨place, leads, tabled⟩ := Option.bind_eq_some_iff.1 tabled
    obtain ⟨inward, below, rfl⟩ := pathOf?_cases found
    have straight := Path.reach_join_inward inward tracks.reached tracks.unlinked
    have held := Path.holder_join_inward inward below tracks.reached tracks.unlinked
    obtain rfl : place = home ++ Path.names edit.name := Option.some.inj (leads.symm.trans straight)
    have aims : aim? last edit = some (Path.names edit.name) := if_neg named
    split at tabled
    · next inserted =>
      obtain ⟨old, isOld, tabled⟩ := Option.bind_eq_some_iff.1 tabled
      rw [held] at tabled
      exact ⟨_, _, _, aims, below, straight, by simp [revised?, named, inserted, isOld],
        (Option.some.inj tabled).symm⟩
    · next plain =>
      rw [not_not] at plain
      exact ⟨_, _, _, aims, below, straight, by simp [revised?, named, plain],
        (Option.some.inj tabled).symm⟩
  · next nameless =>
    rw [not_not] at nameless
    split at tabled
    · cases tabled
    · obtain ⟨path, isLast, tabled⟩ := Option.bind_eq_some_iff.1 tabled
      obtain ⟨place, leads, tabled⟩ := Option.bind_eq_some_iff.1 tabled
      obtain ⟨old, isOld, tabled⟩ := Option.bind_eq_some_iff.1 tabled
      obtain ⟨file, rfl, below, straight⟩ := tracks.last path isLast
      obtain rfl : place = home ++ file := Option.some.inj (leads.symm.trans straight)
      exact ⟨path, file, _, if_pos nameless, below, straight, by simp [revised?, nameless, isOld],
        (Option.some.inj tabled).symm⟩

theorem Draft.Tracks.set (tracks : draft.Tracks current directory home last) (below : file ≠ [])
    (leads : Path.reach draft.links current path = some (home ++ file)) (content : List UInt8) :
    (draft.set path (home ++ file) content).Tracks current directory home (some file) := by
  -- There was no link where the file is set, so all links are as they were.
  have same : (draft.set path (home ++ file) content).links = draft.links :=
    Function.update_eq_self_iff.2 (tracks.unlinked file below).symm
  refine ⟨?_, ?_, ?_⟩
  · rw [same]
    exact tracks.reached
  · rw [same]
    exact tracks.unlinked
  · rw [same]
    rintro other ⟨⟩
    exact ⟨file, rfl, below, leads⟩

/-- The contents of a file that no edit is about are as they were. -/
theorem Draft.Tracks.contents_eq (tracks : draft.Tracks current directory home last)
    (tabled : edits.foldlM (tabled? current directory) draft = some draft')
    (untargeted : ∀ aim ∈ aimed last edits, place ≠ home ++ aim.1) :
    draft'.contents place = draft.contents place := by
  induction edits generalizing last draft with
  | nil =>
    cases tabled
    rfl
  | cons edit rest ih =>
    obtain ⟨next, stepped, onward⟩ := Option.bind_eq_some_iff.1 tabled
    obtain ⟨path, file, content, aims, below, leads, -, rfl⟩ := tracks.tabled?_eq_some stepped
    rw [aimed, aims] at untargeted
    obtain ⟨elsewhere, others⟩ := List.forall_mem_cons.1 untargeted
    rw [ih (tracks.set below leads content) onward others]
    exact Function.update_of_ne elsewhere _ _

/-! ## Two runs -/

/-- Two drafts that agree on the files seen so far, and on the file that was edited last. -/
structure Draft.Agree (current : Place) (current' : Place) (directory : String)
    (home : Place) (home' : Place) (seen : List (List String)) (last : Option (List String))
    (first second : Draft) : Prop where
  contents : ∀ file ∈ seen, ∃ content, first.contents (home ++ file) = some content ∧
    second.contents (home' ++ file) = some content
  first : first.Tracks current directory home last
  second : second.Tracks current' directory home' last

theorem Draft.contents_set (draft : Draft) (path : String) (home : Place)
    (file target : List String) (content : List UInt8) :
    (draft.set path (home ++ target) content).contents (home ++ file) =
      if file = target then some content else draft.contents (home ++ file) := by
  unfold Draft.set
  by_cases same : file = target
  · subst same
    simp
  · rw [if_neg same]
    exact Function.update_of_ne (fun equal => same (List.append_cancel_left equal)) _ _

/-- After an edit, two runs agree on its file too, if the edit writes a file that is new. -/
theorem Draft.Agree.step
    (agree : Draft.Agree current current' directory home home' seen last first second)
    (fresh : ∀ file, aim? last edit = some file → file ∉ seen → IsWrite edit)
    (tabled : tabled? current directory first edit = some first')
    (tabledToo : tabled? current' directory second edit = some second') :
    ∃ file, aim? last edit = some file ∧
      Draft.Agree current current' directory home home' (file :: seen) (some file) first'
        second' := by
  obtain ⟨path, file, content, aims, below, leads, revised, rfl⟩ :=
    agree.first.tabled?_eq_some tabled
  obtain ⟨path', file', content', aimsToo, -, leadsToo, revisedToo, rfl⟩ :=
    agree.second.tabled?_eq_some tabledToo
  obtain rfl : file = file' := Option.some.inj (aims.symm.trans aimsToo)
  have same : content = content' := by
    rw [← Option.some.injEq, ← revised, ← revisedToo]
    by_cases old : file ∈ seen
    · obtain ⟨before, isFirst, isSecond⟩ := agree.contents file old
      rw [isFirst, isSecond]
    · exact revised?_of_isWrite (fresh file aims old) _ _
  subst same
  refine ⟨file, aims, fun other member => ?_, agree.first.set below leads content,
    agree.second.set below leadsToo content⟩
  rw [Draft.contents_set, Draft.contents_set]
  by_cases same : other = file
  · exact ⟨content, if_pos same, if_pos same⟩
  · rw [if_neg same, if_neg same]
    exact agree.contents other (List.mem_of_ne_of_mem same member)

/-- What is left to do starts with a write for each file that was not seen yet. -/
def FreshAfter (seen : List (List String)) (last : Option (List String)) (edits : List Wire.Edit) :
    Prop :=
  ∀ aim ∈ aimed last edits, aim.1 ∉ seen → ∀ edit ∈ (aimed last edits).lookup aim.1, IsWrite edit

theorem FreshAfter.head (fresh : FreshAfter seen last (edit :: edits))
    (aims : aim? last edit = some file) (new : file ∉ seen) : IsWrite edit := by
  unfold FreshAfter at fresh
  rw [aimed, aims] at fresh
  exact fresh (file, edit) List.mem_cons_self new edit (by simp)

theorem FreshAfter.tail (fresh : FreshAfter seen last (edit :: edits))
    (aims : aim? last edit = some file) : FreshAfter (file :: seen) (some file) edits := by
  unfold FreshAfter at fresh ⊢
  rw [aimed, aims] at fresh
  intro aim member new first isFirst
  obtain ⟨different, notSeen⟩ := List.ne_and_not_mem_of_not_mem_cons new
  refine fresh aim (List.mem_cons_of_mem _ member) notSeen first ?_
  rwa [List.lookup_cons, beq_false_of_ne different]

/-- Two runs of edits agree on all files that the edits are about. -/
theorem Draft.Agree.run
    (agree : Draft.Agree current current' directory home home' seen last first second)
    (fresh : FreshAfter seen last edits)
    (tabled : edits.foldlM (tabled? current directory) first = some first')
    (tabledToo : edits.foldlM (tabled? current' directory) second = some second') :
    ∃ seen' last', Draft.Agree current current' directory home home' seen' last' first' second' ∧
      seen ⊆ seen' ∧ ∀ aim ∈ aimed last edits, aim.1 ∈ seen' := by
  induction edits generalizing seen last first second with
  | nil =>
    cases tabled
    cases tabledToo
    exact ⟨seen, last, agree, List.Subset.refl seen, by simp [aimed]⟩
  | cons edit rest ih =>
    obtain ⟨next, stepped, later⟩ := Option.bind_eq_some_iff.1 tabled
    obtain ⟨nextToo, steppedToo, laterToo⟩ := Option.bind_eq_some_iff.1 tabledToo
    obtain ⟨file, aims, onward⟩ := agree.step (fun _ => fresh.head) stepped steppedToo
    obtain ⟨seen', last', final, kept, reached⟩ := ih onward (fresh.tail aims) later laterToo
    refine ⟨seen', last', final, fun _ old => kept (List.mem_cons_of_mem file old), ?_⟩
    rw [aimed, aims]
    exact List.forall_mem_cons.2 ⟨kept List.mem_cons_self, reached⟩

/-! ## Edits done again -/

theorem makeParent_again (made : makeParent tree path = (after, .ok ()))
    (keeps : after.Keeps later) : makeParent later path = (later, .ok ()) := by
  unfold makeParent at made ⊢
  split at made
  · rfl
  · next parent _ =>
    rcases below : tree.makeDirectories parent with ⟨grown, result⟩
    rw [below] at made
    cases result with
    | error cause => cases made
    | ok done =>
      cases made
      rw [FileTree.makeDirectories_again below keeps]
      rfl

/-- The name of an edit leads to something inside the output directory. -/
def Finds (directory : String) (tree : FileTree) (edit : Wire.Edit) : Prop :=
  edit.name ≠ "" → Path.Inward edit.name ∧
    ∃ place, tree.locate (Path.join directory edit.name) = .ok place

/-- A file that is written in a directory without links stays, and so does all that was there. -/
theorem writeNew_keeps {content : String} (unlinked : tree.UnlinkedBelow directory)
    (named : edit.name ≠ "") (inward : Path.Inward edit.name)
    (written : writeNew tree (Path.join directory edit.name) content = (after, .ok ())) :
    ∃ grown, makeParent tree (Path.join directory edit.name) = (grown, .ok ()) ∧
      grown.write (Path.join directory edit.name) content.toUTF8.toList = .ok after ∧
      tree.Keeps grown ∧ grown.Keeps after := by
  obtain ⟨grown, made, success⟩ := writeNew_eq_ok written
  have grows := makeParent_grows tree (Path.join directory edit.name)
  rw [made] at grows
  obtain ⟨ends, -⟩ := FileTree.write_revises success
  refine ⟨grown, made, success, grows.keeps, FileTree.write_keeps success fun place reached => ?_⟩
  exact ((grows.keeps.unlinkedBelow unlinked).reach_join inward
    (Path.names_ne_nil inward named ends) reached).2

/-- What an edit leaves can be edited in the same way, whatever comes of it in between. -/
theorem applyEdit_again (unlinked : tree.UnlinkedBelow directory)
    (applied : applyEdit directory tree previous index edit = (after, .ok path)) :
    tree.Keeps after ∧ Finds directory after edit ∧ ∀ later, after.Keeps later →
      ∃ later', applyEdit directory later previous index edit = (later', .ok path) := by
  cases applyEdit_case directory tree previous index edit with
  | unnamed _ _ failed | unpreceded _ _ _ failed | outside _ _ failed =>
    rw [failed] at applied
    cases applied
  | adds nameless plain before added =>
    subst before
    obtain ⟨appended, rfl⟩ := settle_eq_ok (added.symm.trans applied)
    have keeps := FileTree.append_keeps appended
    refine ⟨keeps, fun named => absurd nameless named, fun later more => ?_⟩
    obtain ⟨later', again⟩ := FileTree.append_again appended (keeps.trans more)
    exact ⟨later', by rw [applyEdit_adds nameless plain, again]; rfl⟩
  | inserts named inward inserted put =>
    obtain ⟨replaced, rfl⟩ := settle_eq_ok (put.symm.trans applied)
    obtain ⟨ends, place, -, -, reached, -⟩ := FileTree.replace_revises replaced
    have straight := unlinked.reach_join inward (Path.names_ne_nil inward named ends) reached
    have keeps := FileTree.replace_keeps replaced fun here held =>
      Option.some.inj (straight.1.symm.trans held) ▸ straight.2
    obtain ⟨place, old, mode, _, _, found, -⟩ := FileTree.replace_eq_ok replaced
    have located := keeps.locate (FileTree.fileAt_eq_ok.1 found).1
    refine ⟨keeps, fun _ => ⟨inward, place, located⟩, fun later more => ?_⟩
    obtain ⟨later', again⟩ := FileTree.replace_again replaced (keeps.trans more)
    exact ⟨later', by rw [applyEdit_inserts named inward inserted, again]; rfl⟩
  | writes named inward plain wrote =>
    obtain ⟨isTree, ended⟩ := Prod.mk.inj (wrote.symm.trans applied)
    obtain ⟨⟨⟩, success, rfl⟩ := map_eq_ok.1 ended
    obtain ⟨grown, made, written, grows, keeps⟩ :=
      writeNew_keeps unlinked named inward (Prod.ext isTree success)
    refine ⟨grows.trans keeps, fun _ => ⟨inward, FileTree.locate_of_write written keeps⟩,
      fun later more => ?_⟩
    obtain ⟨later', again⟩ := FileTree.write_again written keeps more
    refine ⟨later', ?_⟩
    rw [applyEdit_writes named inward plain, writeNew, makeParent_again made (keeps.trans more)]
    dsimp only
    rw [again]
    rfl

/-- Edits that were all applied can be applied to every tree that came of the result. -/
theorem applyFrom_again (unlinked : tree.UnlinkedBelow directory)
    (applied : applyFrom directory tree previous index edits = (after, .ok ())) :
    tree.Keeps after ∧ (∀ edit ∈ edits, Finds directory after edit) ∧
      ∀ later, after.Keeps later →
        ∃ later', applyFrom directory later previous index edits = (later', .ok ()) := by
  induction edits generalizing tree previous index with
  | nil =>
    cases applied
    exact ⟨FileTree.Grows.keeps (.refl _), by simp, fun later _ => ⟨later, rfl⟩⟩
  | cons edit rest ih =>
    rw [applyFrom] at applied
    split at applied
    · next next path step =>
      obtain ⟨kept, finds, editAgain⟩ := applyEdit_again unlinked step
      obtain ⟨keptLater, findsLater, restAgain⟩ := ih (kept.unlinkedBelow unlinked) applied
      refine ⟨kept.trans keptLater, List.forall_mem_cons.2 ⟨fun named => ?_, findsLater⟩,
        fun later more => ?_⟩
      · obtain ⟨inward, place, located⟩ := finds named
        exact ⟨inward, place, keptLater.locate located⟩
      · have all := (kept.trans keptLater).trans more
        obtain ⟨middle, stepAgain⟩ := editAgain later (keptLater.trans more)
        obtain ⟨later', applied'⟩ := restAgain middle
          (more.trans (applyEdit_again (all.unlinkedBelow unlinked) stepAgain).1)
        exact ⟨later', by rw [applyFrom, stepAgain]; exact applied'⟩
    · cases applied

/-! ## Responses -/

theorem mem_aimed (member : edit ∈ edits) (named : edit.name ≠ "") (last : Option (List String)) :
    (Path.names edit.name, edit) ∈ aimed last edits := by
  induction edits generalizing last with
  | nil => cases member
  | cons head rest ih =>
    rw [aimed]
    rcases List.mem_cons.1 member with rfl | later
    · rw [aim?, if_neg named]
      exact List.mem_cons_self
    · cases aim? last head with
      | none => exact ih later none
      | some file => exact List.mem_cons_of_mem _ (ih later (some file))

/-- The output directory leads somewhere if an edit was applied. -/
theorem exists_home (nonempty : edits ≠ [])
    (applied : apply directory tree edits = (after, .ok ())) :
    ∃ home, Path.reach tree.link? tree.current directory = some home := by
  obtain ⟨last, tabled⟩ := apply_ok_tabled applied
  cases edits with
  | nil => exact absurd rfl nonempty
  | cons edit rest =>
    obtain ⟨next, stepped, -⟩ := Option.bind_eq_some_iff.1 tabled
    unfold tabled? at stepped
    split at stepped
    · obtain ⟨path, found, stepped⟩ := Option.bind_eq_some_iff.1 stepped
      obtain ⟨place, leads, -⟩ := Option.bind_eq_some_iff.1 stepped
      obtain ⟨inward, -, rfl⟩ := pathOf?_cases found
      exact Path.exists_reach_directory (Path.inward_iff.1 inward).1 leads
    · -- There is no file yet that could be added to.
      split at stepped <;> cases stepped

theorem draftOf_tracks (unlinked : tree.UnlinkedBelow directory)
    (reached : Path.reach tree.link? tree.current directory = some home) :
    (draftOf tree none).Tracks tree.current directory home none where
  reached := reached
  unlinked below := unlinked home below reached
  last := nofun

/-- Edits that are all applied in two trees give each file that they are about the same contents. -/
theorem apply_agree (afresh : WritesFirst edits)
    (tracks : (draftOf tree none).Tracks tree.current directory home none)
    (tracksToo : (draftOf other none).Tracks other.current directory home' none)
    (applied : apply directory tree edits = (after, .ok ()))
    (appliedToo : apply directory other edits = (after', .ok ())) :
    ∀ aim ∈ aimed none edits, ∃ content, after.content? (home ++ aim.1) = some content ∧
      after'.content? (home' ++ aim.1) = some content := by
  obtain ⟨_, tabled⟩ := apply_ok_tabled applied
  obtain ⟨_, tabledToo⟩ := apply_ok_tabled appliedToo
  have begun : Draft.Agree tree.current other.current directory home home' [] none
      (draftOf tree none) (draftOf other none) := ⟨by simp, tracks, tracksToo⟩
  have fresh : FreshAfter [] none edits := fun aim isAim _ => afresh aim isAim
  obtain ⟨seen, last, agree, -, reached⟩ := begun.run fresh tabled tabledToo
  exact fun aim isAim => agree.contents aim.1 (reached aim isAim)

/-- The name of an edit that was applied leads to its place in the output directory. -/
theorem contentAt?_apply (unlinked : tree.UnlinkedBelow directory)
    (reached : Path.reach tree.link? tree.current directory = some home)
    (applied : apply directory tree edits = (after, .ok ())) (member : edit ∈ edits)
    (named : edit.name ≠ "") :
    after.contentAt? (Path.join directory edit.name) =
      after.content? (home ++ Path.names edit.name) := by
  obtain ⟨keeps, finds, -⟩ := applyFrom_again unlinked applied
  obtain ⟨inward, place, located⟩ := finds edit member named
  have leads := (FileTree.locate_eq_ok.1 located).2.reach
  rw [keeps.links, keeps.current, Path.reach_join_inward inward reached
    fun below => unlinked home below reached] at leads
  cases leads
  exact FileTree.contentAt?_eq located

/-- Edits that were applied can be applied again, and then no file changes. -/
theorem apply_twice (afresh : WritesFirst edits) (unlinked : tree.UnlinkedBelow directory)
    (applied : apply directory tree edits = (after, .ok ())) :
    ∃ again, apply directory after edits = (again, .ok ()) ∧ again.content? = after.content? := by
  obtain ⟨keeps, -, repeats⟩ := applyFrom_again unlinked applied
  obtain ⟨again, appliedAgain⟩ := repeats after (FileTree.Grows.keeps (.refl after))
  refine ⟨again, appliedAgain, ?_⟩
  by_cases nonempty : edits = []
  · subst nonempty
    cases appliedAgain
    rfl
  · obtain ⟨home, reached⟩ := exists_home nonempty applied
    have tracks := draftOf_tracks unlinked reached
    have reachedAgain := reached
    rw [← keeps.links, ← keeps.current] at reachedAgain
    have tracksAgain := draftOf_tracks (keeps.unlinkedBelow unlinked) reachedAgain
    funext place
    by_cases targeted : ∃ aim ∈ aimed none edits, place = home ++ aim.1
    · obtain ⟨aim, isAim, rfl⟩ := targeted
      obtain ⟨content, once, twice⟩ :=
        apply_agree afresh tracks tracksAgain applied appliedAgain aim isAim
      rw [once, twice]
    · obtain ⟨last, tabled⟩ := apply_ok_tabled appliedAgain
      exact tracksAgain.contents_eq tabled fun aim isAim isPlace => targeted ⟨aim, isAim, isPlace⟩

end SdlCompiler.Output
