import Mathlib.Logic.Relation
import SdlCompiler.Proofs.Wire.Conversion

/-!
# Copies of interfaces

What an interface implements is copied into its message, and so on from there. `Leads` follows the
same ways through the file. The nodes of the message are the ends of those ways that pass no
interface twice (`exists_node`, `exists_way`), and each node is a copy of the interface where the
way ends, or only its name if the way has passed that interface before.
-/

namespace SdlCompiler.Wire

open Outcome

variable {file : Schema.File} {room : Nat} {path passed address : List Nat} {index last : Nat}
  {tree node : Interface}

/-! ## Ways -/

/-- The part of the message at an address: the place of the next parent, from each node on. -/
def Interface.node? : Interface → List Nat → Option Interface
  | tree, [] => some tree
  | tree, place :: rest => tree.implements[place]?.bind fun parent => parent.node? rest

/-- The address leads from one interface of the file past others to the last. -/
inductive Leads (file : Schema.File) : Nat → List Nat → List Nat → Nat → Prop
  | here (index : Nat) : Leads file index [] [] index
  | step {index place parent last : Nat} {rest passed : List Nat} {c : Schema.Composite}
      (found : file.interfaces[index]? = some c) (listed : c.implements[place]? = some parent)
      (further : Leads file parent rest passed last) :
      Leads file index (place :: rest) (index :: passed) last

/-- One interface of the file lists another among those that it implements. -/
def Implements (file : Schema.File) (index parent : Nat) : Prop :=
  ∃ c, file.interfaces[index]? = some c ∧ parent ∈ c.implements

/-- No interface that is reached from the given one is reached from itself. -/
def AcyclicFrom (file : Schema.File) (index : Nat) : Prop :=
  ∀ i, Relation.ReflTransGen (Implements file) index i → ¬Relation.TransGen (Implements file) i i

theorem Leads.inside (leads : Leads file index address passed last) :
    ∀ i ∈ passed, i < file.interfaces.length := by
  induction leads with
  | here => simp
  | step found _ _ ih =>
    exact List.forall_mem_cons.2 ⟨(List.getElem?_eq_some_iff.1 found).1, ih⟩

theorem Leads.reaches (leads : Leads file index address passed last) :
    Relation.ReflTransGen (Implements file) index last ∧
      ∀ i ∈ passed, Relation.ReflTransGen (Implements file) index i ∧
        Relation.TransGen (Implements file) i last := by
  induction leads with
  | here => exact ⟨.refl, by simp⟩
  | step found listed _ ih =>
    have first : Implements file _ _ := ⟨_, found, List.mem_of_getElem? listed⟩
    refine ⟨.head first ih.1, List.forall_mem_cons.2 ⟨⟨.refl, .head' first ih.1⟩, ?_⟩⟩
    exact fun i member => ⟨.head first (ih.2 i member).1, (ih.2 i member).2⟩

theorem Leads.nodup (leads : Leads file index address passed last)
    (acyclic : AcyclicFrom file index) : passed.Nodup := by
  induction leads with
  | here => exact List.nodup_nil
  | step found listed further ih =>
    have first : Implements file _ _ := ⟨_, found, List.mem_of_getElem? listed⟩
    refine List.nodup_cons.2 ⟨fun again => ?_, ih fun i reached => acyclic i (.head first reached)⟩
    exact acyclic _ .refl (.head' first (further.reaches.2 _ again).1)

/-! ## What is made of one interface -/

/-- More room makes no difference, nor does a path that differs in interfaces which are not
reached. -/
theorem embed_congr {more : Nat} {other : List Nat} (enough : room ≤ more)
    (same : ∀ i, Relation.ReflTransGen (Implements file) index i → (i ∈ path ↔ i ∈ other))
    (made : Interface.embed file room path index = .ok tree) :
    Interface.embed file more other index = .ok tree := by
  induction room generalizing more path other index tree with
  | zero =>
    obtain ⟨c, found, ⟨repeated, rfl⟩ | ⟨-, less, _, absent, -⟩⟩ := embed_eq_ok.1 made
    · exact embed_eq_ok.2 ⟨c, found, .inl ⟨(same index .refl).1 repeated, rfl⟩⟩
    · cases absent
  | succ room ih =>
    obtain ⟨c, found, ⟨repeated, rfl⟩ | ⟨new, less, implements, count, parents, rfl⟩⟩ :=
      embed_eq_ok.1 made
    · exact embed_eq_ok.2 ⟨c, found, .inl ⟨(same index .refl).1 repeated, rfl⟩⟩
    · obtain ⟨further, rfl⟩ := Nat.exists_eq_add_of_lt (Nat.lt_of_succ_le enough)
      cases count
      refine embed_eq_ok.2 ⟨c, found, .inr ⟨fun repeated => new ((same index .refl).2 repeated),
        _, implements, rfl, mapM_mono parents fun parent member child => ?_, rfl⟩⟩
      refine ih (Nat.le_add_right _ _) fun i reached => ?_
      have fromHere := same i (.head ⟨c, found, member⟩ reached)
      rw [List.mem_cons, List.mem_cons, fromHere]

theorem embed_unique {more : Nat} {other : Interface}
    (made : Interface.embed file room path index = .ok tree)
    (madeToo : Interface.embed file more path index = .ok other) : tree = other := by
  have first := embed_congr (Nat.le_max_left room more) (fun _ _ => Iff.rfl) made
  have second := embed_congr (Nat.le_max_right room more) (fun _ _ => Iff.rfl) madeToo
  rw [first] at second
  exact Except.ok.inj second

theorem embed_name (made : Interface.embed file room path index = .ok tree) :
    tree.name = file.interfaceName index := by
  obtain ⟨c, found, ⟨-, rfl⟩ | ⟨-, less, implements, -, -, rfl⟩⟩ := embed_eq_ok.1 made
  · exact (interfaceName_eq found).symm
  · exact (interfaceName_eq found).symm

/-- A node is only a name just if its interface is on the path to it. -/
theorem embed_shows (made : Interface.embed file room path index = .ok tree) :
    ∃ c, file.interfaces[index]? = some c ∧
      (index ∈ path ∧ tree = .nameOnly c.name ∨ index ∉ path ∧ Gives.Interface file c tree) := by
  obtain ⟨c, found, ⟨repeated, rfl⟩ | ⟨new, less, implements, -, parents, rfl⟩⟩ :=
    embed_eq_ok.1 made
  · exact ⟨c, found, .inl ⟨repeated, rfl⟩⟩
  · refine ⟨c, found, .inr ⟨new, rfl, rfl, map_eq_of_forall₂ ?_, rfl, rfl⟩⟩
    exact (mapM_eq_ok.1 parents).imp fun _ _ => embed_name

/-! ## Nodes and ways -/

/-- A way that passes new interfaces only ends at a node. -/
theorem exists_node (leads : Leads file index address passed last)
    (made : Interface.embed file room path index = .ok tree) (distinct : passed.Nodup)
    (new : ∀ i ∈ passed, i ∉ path) :
    ∃ node left, tree.node? address = some node ∧
      Interface.embed file left (passed.reverse ++ path) last = .ok node := by
  induction leads generalizing room path tree with
  | here index => exact ⟨tree, room, rfl, made⟩
  | step found listed _ ih =>
    obtain ⟨newHere, newLater⟩ := List.forall_mem_cons.1 new
    obtain ⟨unpassed, distinctLater⟩ := List.nodup_cons.1 distinct
    obtain ⟨c, foundToo, ⟨repeated, -⟩ | ⟨-, less, implements, rfl, parents, rfl⟩⟩ :=
      embed_eq_ok.1 made
    · exact absurd repeated newHere
    · rw [found] at foundToo
      cases foundToo
      obtain ⟨child, placed, madeChild⟩ := exists_getElem?_of_forall₂ (mapM_eq_ok.1 parents) listed
      obtain ⟨node, left, reached, madeNode⟩ := ih madeChild distinctLater fun i member => by
        rw [List.mem_cons, not_or]
        exact ⟨fun same => unpassed (same ▸ member), newLater i member⟩
      refine ⟨node, left, ?_, ?_⟩
      · show (implements[_]?.bind _) = _
        rw [placed, Option.bind_some, reached]
      · rw [List.reverse_cons, List.append_assoc, List.singleton_append]
        exact madeNode

/-- A node is at the end of a way that passes new interfaces only. -/
theorem exists_way (made : Interface.embed file room path index = .ok tree)
    (reached : tree.node? address = some node) :
    ∃ passed last left, Leads file index address passed last ∧ passed.Nodup ∧
      (∀ i ∈ passed, i ∉ path) ∧
      Interface.embed file left (passed.reverse ++ path) last = .ok node := by
  induction address generalizing room path index tree with
  | nil =>
    cases reached
    exact ⟨[], index, room, .here index, List.nodup_nil, by simp, made⟩
  | cons place rest ih =>
    obtain ⟨child, placed, further⟩ := Option.bind_eq_some_iff.1 reached
    obtain ⟨c, found, ⟨-, rfl⟩ | ⟨new, less, implements, rfl, parents, rfl⟩⟩ := embed_eq_ok.1 made
    · cases placed
    · obtain ⟨parent, listed, madeChild⟩ :=
        exists_getElem?_of_forall₂ (mapM_eq_ok.1 parents).flip placed
      obtain ⟨passed, last, left, leads, distinct, newLater, madeNode⟩ := ih madeChild further
      simp only [List.mem_cons, not_or] at newLater
      refine ⟨index :: passed, last, left, .step found listed leads,
        List.nodup_cons.2 ⟨fun again => (newLater index again).1 rfl, distinct⟩,
        List.forall_mem_cons.2 ⟨new, fun i member => (newLater i member).2⟩, ?_⟩
      rw [List.reverse_cons, List.append_assoc, List.singleton_append]
      exact madeNode

/-- Where no interface is reached from itself, a node is what the interface has as its own
message. -/
theorem ofSchema_of_acyclic
    (inside : ∀ c ∈ file.interfaces, ∀ i ∈ c.implements, i < file.interfaces.length)
    (acyclic : AcyclicFrom file index) (leads : Leads file index address passed last)
    (made : Interface.embed file room passed.reverse last = .ok node) :
    last ∉ passed ∧ Interface.ofSchema file last = .ok node := by
  obtain ⟨reached, each⟩ := leads.reaches
  -- Nothing that is reached from the end of the way is on the way.
  have apart : ∀ i, Relation.ReflTransGen (Implements file) last i → i ∉ passed :=
    fun i further again => acyclic i (each i again).1 ((each i again).2.trans_left further)
  have alone : Interface.embed file room [] last = .ok node :=
    embed_congr (Nat.le_refl room) (fun i further => by simp [apart i further]) made
  obtain ⟨c, found, -⟩ := embed_eq_ok.1 made
  obtain ⟨whole, madeWhole, -⟩ := exists_interface inside last c found
  exact ⟨apart last .refl, embed_unique alone madeWhole ▸ madeWhole⟩

theorem getElem?_of_ofSchema {wire : File} (made : File.ofSchema file = .ok wire)
    (entry : Interface.ofSchema file index = .ok tree) : wire.interfaces[index]? = some tree := by
  simp only [File.ofSchema, bind_eq_ok, pure_eq_ok] at made
  obtain ⟨roots, -, objects, -, interfaces, all, rfl⟩ := made
  obtain ⟨c, found, -⟩ := embed_eq_ok.1 entry
  have listed : (List.range file.interfaces.length)[index]? = some index :=
    List.getElem?_range (List.getElem?_eq_some_iff.1 found).1
  obtain ⟨other, placed, madeToo⟩ := exists_getElem?_of_forall₂ (mapM_eq_ok.1 all) listed
  rw [entry] at madeToo
  cases madeToo
  exact placed

/-- The message of an interface has a node for each way through the file that passes no interface
twice: a copy of the interface where the way ends, or its name alone if the way has passed it. If
no interface is reached from itself, every node is what its interface has as its own message. -/
theorem ofSchema_unfolds
    (inside : ∀ c ∈ file.interfaces, ∀ i ∈ c.implements, i < file.interfaces.length)
    (here : index < file.interfaces.length) :
    ∃ tree, Interface.ofSchema file index = .ok tree ∧
      (∀ room, file.interfaces.length ≤ room →
        Interface.embed file room [] index = .ok tree) ∧
      (∀ address passed last, Leads file index address passed last → passed.Nodup →
        ∃ c node, file.interfaces[last]? = some c ∧ tree.node? address = some node ∧
          (last ∈ passed ∧ node = .nameOnly c.name ∨
            last ∉ passed ∧ Gives.Interface file c node)) ∧
      (∀ address node, tree.node? address = some node →
        ∃ passed last, Leads file index address passed last ∧ passed.Nodup ∧
          (passed ++ [last]).length ≤ file.interfaces.length + 1) ∧
      (AcyclicFrom file index → ∀ address passed last, Leads file index address passed last →
        last ∉ passed ∧ ∃ node, tree.node? address = some node ∧
          Interface.ofSchema file last = .ok node ∧
          ∀ wire, File.ofSchema file = .ok wire → wire.interfaces[last]? = some node) := by
  obtain ⟨tree, made, -⟩ := exists_interface inside index _ (List.getElem?_eq_getElem here)
  refine ⟨tree, made, fun room enough => embed_congr enough (fun _ _ => Iff.rfl) made, ?_, ?_, ?_⟩
  · intro address passed last leads distinct
    obtain ⟨node, left, reached, madeNode⟩ := exists_node leads made distinct (by simp)
    obtain ⟨c, found, shows⟩ := embed_shows madeNode
    rw [List.append_nil, List.mem_reverse] at shows
    exact ⟨c, node, found, reached, shows⟩
  · intro address node reached
    obtain ⟨passed, last, left, leads, distinct, -⟩ := exists_way made reached
    refine ⟨passed, last, leads, distinct, ?_⟩
    rw [List.length_append, List.length_singleton]
    exact Nat.succ_le_succ (length_le_of_nodup distinct leads.inside)
  · intro acyclic address passed last leads
    obtain ⟨node, left, reached, madeNode⟩ :=
      exists_node leads made (leads.nodup acyclic) (by simp)
    rw [List.append_nil] at madeNode
    obtain ⟨unpassed, entry⟩ := ofSchema_of_acyclic inside acyclic leads madeNode
    exact ⟨unpassed, node, reached, entry, fun wire whole => getElem?_of_ofSchema whole entry⟩

/-- Interfaces of which the first implements itself and the second, and the second implements the
last in two ways. -/
def tangledFile : Schema.File where
  name := "tangled"
  interfaces := [
    { name := "Loop", implements := [0, 1] },
    { name := "Top", implements := [2, 3] },
    { name := "Left", implements := [4] },
    { name := "Right", implements := [4] },
    { name := "Bottom" }]

theorem ofSchema_unfolds_tangled :
    (∀ c ∈ tangledFile.interfaces, ∀ i ∈ c.implements, i < tangledFile.interfaces.length) ∧
    (∃ tree, Interface.ofSchema tangledFile 0 = .ok tree ∧
      tree.node? [0] = some (.nameOnly "Loop")) ∧
    AcyclicFrom tangledFile 1 ∧
    ∃ tree node, Interface.ofSchema tangledFile 1 = .ok tree ∧
      tree.node? [0, 0] = some node ∧ tree.node? [1, 0] = some node ∧
      Interface.ofSchema tangledFile 4 = .ok node := by
  have inside : ∀ c ∈ tangledFile.interfaces, ∀ i ∈ c.implements,
      i < tangledFile.interfaces.length := by decide
  have firstInFile : 0 < tangledFile.interfaces.length := by decide
  have secondInFile : 1 < tangledFile.interfaces.length := by decide
  -- From the second interface on, each one implements later ones only.
  have listsLater : ∀ (i : Nat) (inFile : i < tangledFile.interfaces.length), 1 ≤ i →
      ∀ j ∈ (tangledFile.interfaces[i]).implements, i < j := by decide
  have rises : ∀ i j, Implements tangledFile i j → 1 ≤ i → i < j := by
    rintro i j ⟨c, found, listed⟩ later
    obtain ⟨inFile, rfl⟩ := List.getElem?_eq_some_iff.1 found
    exact listsLater i inFile later j listed
  have risesFurther : ∀ i j, Relation.TransGen (Implements tangledFile) i j → 1 ≤ i → i < j := by
    intro i j reached later
    induction reached with
    | single step => exact rises _ _ step later
    | tail _ step ih => exact Nat.lt_trans ih (rises _ _ step (Nat.le_trans later (Nat.le_of_lt ih)))
  have acyclic : AcyclicFrom tangledFile 1 := by
    intro i reached again
    have later : 1 ≤ i := by
      rcases Relation.reflTransGen_iff_eq_or_transGen.1 reached with rfl | further
      · exact Nat.le_refl 1
      · exact Nat.le_of_lt (risesFurther _ _ further (Nat.le_refl 1))
    exact absurd (risesFurther i i again later) (Nat.lt_irrefl i)
  refine ⟨inside, ?_, acyclic, ?_⟩
  · obtain ⟨tree, made, -, nodes, -⟩ := ofSchema_unfolds inside firstInFile
    have leads : Leads tangledFile 0 [0] [0] 0 := .step rfl rfl (.here 0)
    obtain ⟨c, node, ⟨⟩, reached, ⟨-, rfl⟩ | ⟨unpassed, -⟩⟩ := nodes _ _ _ leads (by decide)
    · exact ⟨tree, made, reached⟩
    · exact absurd (by decide) unpassed
  · obtain ⟨tree, made, -, -, -, copies⟩ := ofSchema_unfolds inside secondInFile
    have left : Leads tangledFile 1 [0, 0] [1, 2] 4 := .step rfl rfl (.step rfl rfl (.here 4))
    have right : Leads tangledFile 1 [1, 0] [1, 3] 4 := .step rfl rfl (.step rfl rfl (.here 4))
    obtain ⟨-, node, reached, entry, -⟩ := copies acyclic _ _ _ left
    obtain ⟨-, other, reachedToo, entryToo, -⟩ := copies acyclic _ _ _ right
    rw [entry] at entryToo
    cases entryToo
    exact ⟨tree, node, made, reached, reachedToo, entry⟩

end SdlCompiler.Wire
