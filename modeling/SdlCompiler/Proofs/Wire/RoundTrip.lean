import SdlCompiler.Proofs.Wire.Values
import SdlCompiler.Wire.Protocol

/-!
# Messages read back

Every message that the compiler and a generator exchange is read back from its bytes as it was
written, unless its messages nest too deep, in which case it is not read. The depth of a message
is the number of messages around the innermost one that is embedded in it, the message itself
not counted.

The fields of a message are merged back in the order in which they are written, the first of them
into the empty message.
-/

namespace SdlCompiler.Wire

namespace Restores

variable {σ μ : Type} [Message σ] [Message μ] [Nested μ] {levels : Nat} {s : σ} {rs : List Record}

theorem start : Restores (Message.merge (μ := σ)) 0 Message.empty [] Message.empty :=
  nil

theorem text (f : String → σ) (number : Nat) (text : String)
    (before : Restores Message.merge levels s rs (f "")) (valid : ValidNumber number)
    (step : ∀ limit payload, Message.merge limit (f "") ⟨number, payload⟩ =
      do return f (← Record.text? ⟨number, payload⟩)) :
    Restores Message.merge levels s (rs ++ Record.ofText number text) (f text) :=
  before.scalar (Restores.ofText f number text valid step)

theorem message (f : Option μ → σ) (number : Nat) (m : Option μ)
    (before : Restores Message.merge levels s rs (f none)) (valid : ValidNumber number)
    (step : ∀ limit payload, Message.merge limit (f none) ⟨number, payload⟩ =
      do return f (some (← Record.into? limit Message.empty ⟨number, payload⟩))) :
    Restores Message.merge (max levels (optionNesting depth m)) s
      (rs ++ Record.ofMessage number m) (f m) :=
  before.append (Restores.ofMessage f number m valid step)

theorem messages (f : List μ → σ) (number : Nat) (ms : List μ)
    (before : Restores Message.merge levels s rs (f [])) (valid : ValidNumber number)
    (step : ∀ limit before payload, Message.merge limit (f before) ⟨number, payload⟩ =
      do return f (before ++ [← Record.message? limit ⟨number, payload⟩])) :
    Restores Message.merge (max levels (nesting depth ms)) s
      (rs ++ Record.ofMessages number ms) (f ms) :=
  before.append (Restores.ofMessages f number ms valid step)

/-- The levels may be counted in another way. -/
theorem levels_eq {t : σ} {count : Nat} (law : Restores Message.merge levels s rs t)
    (same : levels = count) : Restores Message.merge count s rs t :=
  same ▸ law

end Restores

/-! ## Schema files -/

instance : Nested Argument where
  depth a := optionNesting depth a.value
  restores a :=
    (Restores.start.text (Argument.mk · none) 1 a.name (by decide) fun _ _ => rfl)
      |>.message (Argument.mk a.name) 2 a.value (by decide) (fun _ _ => rfl)
      |>.levels_eq (by simp)

instance : Nested Directive where
  depth d := nesting depth d.arguments
  restores d :=
    (Restores.start.text (Directive.mk · []) 1 d.name (by decide) fun _ _ => rfl)
      |>.messages (Directive.mk d.name) 2 d.arguments (by decide) (fun _ _ _ => rfl)
      |>.levels_eq (by simp)

instance : Nested InputValue where
  depth v :=
    max (max (optionNesting depth v.type) (optionNesting depth v.default))
      (nesting depth v.directives)
  restores v :=
    (Restores.start.text (InputValue.mk · "" none none []) 1 v.name (by decide) fun _ _ => rfl)
      |>.text (InputValue.mk v.name · none none []) 2 v.description (by decide) (fun _ _ => rfl)
      |>.message (InputValue.mk v.name v.description · none []) 3 v.type (by decide)
        (fun _ _ => rfl)
      |>.message (InputValue.mk v.name v.description v.type · []) 4 v.default (by decide)
        (fun _ _ => rfl)
      |>.messages (InputValue.mk v.name v.description v.type v.default) 5 v.directives (by decide)
        (fun _ _ _ => rfl)
      |>.levels_eq (by simp)

instance : Nested Field where
  depth f :=
    max (max (nesting depth f.arguments) (optionNesting depth f.type)) (nesting depth f.directives)
  restores f :=
    (Restores.start.text (Field.mk · "" [] none []) 1 f.name (by decide) fun _ _ => rfl)
      |>.text (Field.mk f.name · [] none []) 2 f.description (by decide) (fun _ _ => rfl)
      |>.messages (Field.mk f.name f.description · none []) 3 f.arguments (by decide)
        (fun _ _ _ => rfl)
      |>.message (Field.mk f.name f.description f.arguments · []) 4 f.type (by decide)
        (fun _ _ => rfl)
      |>.messages (Field.mk f.name f.description f.arguments f.type) 5 f.directives (by decide)
        (fun _ _ _ => rfl)
      |>.levels_eq (by simp)

namespace Interface

mutual

/-- Levels below an interface, which has copies of its parents in it. -/
def nestingDepth : Interface → Nat
  | mk _ _ directives fields implements =>
    max (max (nesting depth directives) (nesting depth fields)) (parentsDepth implements)

def parentsDepth : List Interface → Nat
  | [] => 0
  | parent :: rest => max (parent.nestingDepth + 1) (parentsDepth rest)

end

theorem parentsDepth_eq (parents : List Interface) :
    parentsDepth parents = nesting nestingDepth parents := by
  induction parents with
  | nil => rfl
  | cons parent rest ih => rw [parentsDepth, ih, nesting, nesting, List.foldr_cons]

theorem parentRecords_eq (parents : List Interface) :
    parentRecords parents =
      parents.map fun parent => ⟨5, .bytes (writeRecords parent.records)⟩ := by
  induction parents with
  | nil => rfl
  | cons parent rest ih => rw [parentRecords, ih, List.map_cons]

def Restored (i : Interface) : Prop :=
  Restores merge i.nestingDepth (nameOnly "") i.records i

/-- An interface is merged back if its parents are. -/
theorem restored_of_parents (name description : String) (directives : List Directive)
    (fields : List Field) (parents : List Interface) (laws : ∀ i ∈ parents, i.Restored) :
    (mk name description directives fields parents).Restored := by
  have own : Restores (Message.merge (μ := Interface))
      (max (max 0 (nesting depth directives)) (nesting depth fields)) (nameOnly "")
      (Record.ofText 1 name ++ Record.ofText 2 description ++ Record.ofMessages 3 directives ++
        Record.ofMessages 4 fields) (mk name description directives fields []) :=
    (Restores.start.text (mk · "" [] [] []) 1 name (by decide) fun limit _ => by
        cases limit <;> rfl)
      |>.text (mk name · [] [] []) 2 description (by decide) (fun limit _ => by cases limit <;> rfl)
      |>.messages (mk name description · [] []) 3 directives (by decide)
        (fun limit _ _ => by cases limit <;> rfl)
      |>.messages (mk name description directives · []) 4 fields (by decide)
        (fun limit _ _ => by cases limit <;> rfl)
  -- The parents are messages of the same type, so their laws are given and not found.
  have inherited : Restores (Message.merge (μ := Interface)) (nesting nestingDepth parents)
      (mk name description directives fields [])
      (parents.map fun parent => ⟨5, .bytes (writeRecords parent.records)⟩)
      (mk name description directives fields parents) :=
    Restores.embeddedList (mk name description directives fields) 5 parents [] laws (by decide)
      (fun _ _ => rfl) fun _ _ _ => rfl
  rw [Restored, records, nestingDepth, parentsDepth_eq, parentRecords_eq]
  exact (own.append inherited).levels_eq (by simp)

mutual

theorem restored : (i : Interface) → i.Restored
  | mk name description directives fields parents =>
    restored_of_parents name description directives fields parents (restored_parents parents)

theorem restored_parents : (parents : List Interface) → ∀ i ∈ parents, i.Restored
  | [] => nofun
  | i :: rest => List.forall_mem_cons.2 ⟨restored i, restored_parents rest⟩

end

instance : Nested Interface where
  depth := nestingDepth
  restores := restored

end Interface

instance : Nested Object where
  depth o :=
    max (max (nesting depth o.implements) (nesting depth o.directives)) (nesting depth o.fields)
  restores o :=
    (Restores.start.text (Object.mk · "" [] [] []) 1 o.name (by decide) fun _ _ => rfl)
      |>.text (Object.mk o.name · [] [] []) 2 o.description (by decide) (fun _ _ => rfl)
      |>.messages (Object.mk o.name o.description · [] []) 3 o.implements (by decide)
        (fun _ _ _ => rfl)
      |>.messages (Object.mk o.name o.description o.implements · []) 4 o.directives (by decide)
        (fun _ _ _ => rfl)
      |>.messages (Object.mk o.name o.description o.implements o.directives) 5 o.fields (by decide)
        (fun _ _ _ => rfl)
      |>.levels_eq (by simp)

instance : Nested Union where
  depth u := max (nesting depth u.directives) (nesting depth u.members)
  restores u :=
    (Restores.start.text (Union.mk · "" [] []) 1 u.name (by decide) fun _ _ => rfl)
      |>.text (Union.mk u.name · [] []) 2 u.description (by decide) (fun _ _ => rfl)
      |>.messages (Union.mk u.name u.description · []) 3 u.directives (by decide)
        (fun _ _ _ => rfl)
      |>.messages (Union.mk u.name u.description u.directives) 4 u.members (by decide)
        (fun _ _ _ => rfl)
      |>.levels_eq (by simp)

instance : Nested Symbol where
  depth s := nesting depth s.directives
  restores s :=
    (Restores.start.text (Symbol.mk · "" []) 1 s.name (by decide) fun _ _ => rfl)
      |>.text (Symbol.mk s.name · []) 2 s.description (by decide) (fun _ _ => rfl)
      |>.messages (Symbol.mk s.name s.description) 3 s.directives (by decide) (fun _ _ _ => rfl)
      |>.levels_eq (by simp)

instance : Nested Enum where
  depth e := max (nesting depth e.directives) (nesting depth e.values)
  restores e :=
    (Restores.start.text (Enum.mk · "" [] []) 1 e.name (by decide) fun _ _ => rfl)
      |>.text (Enum.mk e.name · [] []) 2 e.description (by decide) (fun _ _ => rfl)
      |>.messages (Enum.mk e.name e.description · []) 3 e.directives (by decide)
        (fun _ _ _ => rfl)
      |>.messages (Enum.mk e.name e.description e.directives) 4 e.values (by decide)
        (fun _ _ _ => rfl)
      |>.levels_eq (by simp)

instance : Nested InputObject where
  depth i := max (nesting depth i.directives) (nesting depth i.fields)
  restores i :=
    (Restores.start.text (InputObject.mk · "" [] []) 1 i.name (by decide) fun _ _ => rfl)
      |>.text (InputObject.mk i.name · [] []) 2 i.description (by decide) (fun _ _ => rfl)
      |>.messages (InputObject.mk i.name i.description · []) 3 i.directives (by decide)
        (fun _ _ _ => rfl)
      |>.messages (InputObject.mk i.name i.description i.directives) 4 i.fields (by decide)
        (fun _ _ _ => rfl)
      |>.levels_eq (by simp)

instance : Nested Location where
  depth _ := 0
  restores
    | .unset => Restores.nil
    | .executable number => Restores.single (by decide) nofun fun _ =>
        congrArg (fun n => some (Location.executable n)) (Restores.toInt32_toInt64 number)
    | .typeSystem number => Restores.single (by decide) nofun fun _ =>
        congrArg (fun n => some (Location.typeSystem n)) (Restores.toInt32_toInt64 number)

instance : Nested DirectiveDefinition where
  depth d := max (nesting depth d.arguments) (nesting depth d.locations)
  restores d :=
    (Restores.start.text (DirectiveDefinition.mk · "" [] [] false) 1 d.name (by decide)
        fun _ _ => rfl)
      |>.text (DirectiveDefinition.mk d.name · [] [] false) 2 d.description (by decide)
        (fun _ _ => rfl)
      |>.messages (DirectiveDefinition.mk d.name d.description · [] false) 3 d.arguments
        (by decide) (fun _ _ _ => rfl)
      |>.messages (DirectiveDefinition.mk d.name d.description d.arguments · false) 4 d.locations
        (by decide) (fun _ _ _ => rfl)
      |>.scalar (Restores.ofBool
        (DirectiveDefinition.mk d.name d.description d.arguments d.locations) 5 d.repeatable
        (by decide) fun _ _ => rfl)
      |>.levels_eq (by simp)

instance : Nested Roots where
  depth s :=
    max (max (max (nesting depth s.directives) (optionNesting depth s.query))
      (optionNesting depth s.mutation)) (optionNesting depth s.subscription)
  restores s :=
    (Restores.start.messages (Roots.mk · none none none) 1 s.directives (by decide)
        fun _ _ _ => rfl)
      |>.message (Roots.mk s.directives · none none) 2 s.query (by decide) (fun _ _ => rfl)
      |>.message (Roots.mk s.directives s.query · none) 3 s.mutation (by decide) (fun _ _ => rfl)
      |>.message (Roots.mk s.directives s.query s.mutation) 4 s.subscription (by decide)
        (fun _ _ => rfl)
      |>.levels_eq (by simp)

instance : Nested File where
  depth f :=
    max (max (max (max (max (max (max (optionNesting depth f.schema) (nesting depth f.objects))
      (nesting depth f.interfaces)) (nesting depth f.unions)) (nesting depth f.enums))
      (nesting depth f.scalars)) (nesting depth f.inputs)) (nesting depth f.directives)
  restores f :=
    (Restores.start.text (File.mk · none [] [] [] [] [] [] []) 1 f.name (by decide)
        fun _ _ => rfl)
      |>.message (File.mk f.name · [] [] [] [] [] [] []) 2 f.schema (by decide) (fun _ _ => rfl)
      |>.messages (File.mk f.name f.schema · [] [] [] [] [] []) 3 f.objects (by decide)
        (fun _ _ _ => rfl)
      |>.messages (File.mk f.name f.schema f.objects · [] [] [] [] []) 4 f.interfaces (by decide)
        (fun _ _ _ => rfl)
      |>.messages (File.mk f.name f.schema f.objects f.interfaces · [] [] [] []) 5 f.unions
        (by decide) (fun _ _ _ => rfl)
      |>.messages (File.mk f.name f.schema f.objects f.interfaces f.unions · [] [] []) 6 f.enums
        (by decide) (fun _ _ _ => rfl)
      |>.messages (File.mk f.name f.schema f.objects f.interfaces f.unions f.enums · [] []) 7
        f.scalars (by decide) (fun _ _ _ => rfl)
      |>.messages
        (File.mk f.name f.schema f.objects f.interfaces f.unions f.enums f.scalars · []) 8
        f.inputs (by decide) (fun _ _ _ => rfl)
      |>.messages
        (File.mk f.name f.schema f.objects f.interfaces f.unions f.enums f.scalars f.inputs) 9
        f.directives (by decide) (fun _ _ _ => rfl)
      |>.levels_eq (by simp)

/-! ## The exchange -/

instance : Nested Version where
  depth _ := 0
  restores v :=
    (Restores.ofInt32 (Version.mk · 0 0 "") 1 v.major (by decide) fun _ _ => rfl)
      |>.scalar (Restores.ofInt32 (Version.mk v.major · 0 "") 2 v.minor (by decide)
        fun _ _ => rfl)
      |>.scalar (Restores.ofInt32 (Version.mk v.major v.minor · "") 3 v.patch (by decide)
        fun _ _ => rfl)
      |>.text (Version.mk v.major v.minor v.patch) 4 v.suffix (by decide) (fun _ _ => rfl)

instance : Nested Request where
  depth q := max (optionNesting depth q.version) (nesting depth q.files)
  restores q :=
    (Restores.start.scalar (Restores.ofTexts (Request.mk · "" none []) 1 q.generate [] (by decide)
        fun _ _ _ => rfl))
      |>.text (Request.mk q.generate · none []) 2 q.parameter (by decide) (fun _ _ => rfl)
      |>.message (Request.mk q.generate q.parameter · []) 3 q.version (by decide) (fun _ _ => rfl)
      |>.messages (Request.mk q.generate q.parameter q.version) 15 q.files (by decide)
        (fun _ _ _ => rfl)
      |>.levels_eq (by simp)

instance : Nested Edit where
  depth _ := 0
  restores e :=
    (Restores.start.text (Edit.mk · "" "") 1 e.name (by decide) fun _ _ => rfl)
      |>.text (Edit.mk e.name · "") 2 e.insertionPoint (by decide) (fun _ _ => rfl)
      |>.text (Edit.mk e.name e.insertionPoint) 15 e.content (by decide) (fun _ _ => rfl)

instance : Nested Response where
  depth p := nesting depth p.edits
  restores p :=
    (Restores.start.text (Response.mk · []) 1 p.error (by decide) fun _ _ => rfl)
      |>.messages (Response.mk p.error) 15 p.edits (by decide) (fun _ _ _ => rfl)
      |>.levels_eq (by simp)

/-- A request or a response is read back as it was written if its messages nest at most a hundred
deep, and cannot be read if they nest deeper. It is taken to have fewer bytes than a length can
say, as what is in memory does. -/
theorem decode?_encode_exchange :
    (∀ q : Request, (Message.encode q).length < 2 ^ 64 →
      (depth q ≤ 100 → Message.decode? (Message.encode q) = some q) ∧
      (100 < depth q → (Message.decode? (Message.encode q) : Option Request) = none)) ∧
    ∀ p : Response, (Message.encode p).length < 2 ^ 64 →
      (depth p ≤ 100 → Message.decode? (Message.encode p) = some p) ∧
      (100 < depth p → (Message.decode? (Message.encode p) : Option Response) = none) := by
  constructor
  · intro q fits
    rw [Message.decode?_encode q fits]
    exact ⟨fun room => if_pos room, fun deep => if_neg (Nat.not_le.2 deep)⟩
  · intro p fits
    rw [Message.decode?_encode p fits]
    exact ⟨fun room => if_pos room, fun deep => if_neg (Nat.not_le.2 deep)⟩

/-- A request with a file in which an interface has so many interfaces above it. -/
def chainRequest (count : Nat) : Request :=
  let root : Interface := .nameOnly "Node"
  let chain := (List.range count).foldr (fun _ parent => .mk "" "" [] [] [parent]) root
  { version := some { major := -1 }, files := [{ interfaces := [chain] }] }

theorem decode?_encode_chain :
    Message.decode? (Message.encode (chainRequest 98)) = some (chainRequest 98) ∧
    (Message.decode? (Message.encode (chainRequest 99)) : Option Request) = none ∧
    Message.decode? (Message.encode ({ edits := [{}] } : Response)) =
      some ({ edits := [{}] } : Response) :=
  ⟨(decode?_encode_exchange.1 _ (by decide +kernel)).1 (by decide +kernel),
    (decode?_encode_exchange.1 _ (by decide +kernel)).2 (by decide +kernel),
    (decode?_encode_exchange.2 _ (by decide +kernel)).1 (by decide +kernel)⟩

end SdlCompiler.Wire
