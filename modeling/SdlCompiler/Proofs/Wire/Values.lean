import SdlCompiler.Proofs.Wire.Merging
import SdlCompiler.Wire.Value

/-!
# Types and values merged back

Both are written with more messages than the syntax tree has nodes: a type that is non-null is in
a message of its own, and so are the items of a list and the fields of an object.
-/

namespace SdlCompiler.Wire

instance : Nested Name where
  depth _ := 0
  restores name := Restores.ofText Name.mk 1 name.text (by decide) fun _ _ => rfl

/-- A name in a message of its own, where there was no name. -/
theorem Restores.ofName {σ : Type} {merge : Nat → σ → Record → Option σ} {s : σ} (f : String → σ)
    (number : Nat) (name : String) (valid : ValidNumber number)
    (stop : ∀ payload, merge 0 s ⟨number, payload⟩ = none)
    (step : ∀ limit payload, merge (limit + 1) s ⟨number, payload⟩ = do
      let name : Name ← Message.mergeRecords limit {} (← Record.embedded? ⟨number, payload⟩)
      return f name.text) :
    Restores merge 1 s [Record.embed number (Name.mk name)] (f name) :=
  Restores.embedded (fun name : Name => f name.text) number (Nested.restores (Name.mk name)) valid
    stop step

/-! ## Types -/

namespace TypeRef

/-- Levels below the message that holds the kind of a type. -/
def kindDepth : TypeRef → Nat
  | unset _ => 0
  | named _ _ | untypedList _ => 1
  | list _ element =>
    (if element.isNonNull then element.kindDepth + 1 else element.kindDepth) + 2

/-- Levels below a type. A type that is non-null has its kind one level further down. -/
def nestingDepth (t : TypeRef) : Nat :=
  if t.isNonNull then t.kindDepth + 1 else t.kindDepth

/-- The kind of the type is merged back, into the message that makes it non-null if it is. -/
structure KindRestored (t : TypeRef) : Prop where
  nullable : t.isNonNull = false → Restores merge t.kindDepth (.unset false) t.kindRecords t
  nonNull : t.isNonNull = true → Restores mergeNonNull t.kindDepth (.unset true) t.kindRecords t

theorem KindRestored.restores {t : TypeRef} (kind : t.KindRestored) :
    Restores merge t.nestingDepth (.unset false) t.records t := by
  unfold nestingDepth records
  cases marked : t.isNonNull with
  | false => exact kind.nullable marked
  | true =>
    refine Restores.embedded id 3 (kind.nonNull marked) (by decide) (fun _ => rfl) ?_
    intro limit payload
    simp [merge, isNonNull]

/-- A list of the element is merged back, in either of the messages that can hold it. -/
theorem KindRestored.element {t : TypeRef} (kind : t.KindRestored) :
    Restores mergeElement (t.nestingDepth + 1) none [⟨1, .bytes (writeRecords t.records)⟩]
      (some t) :=
  Restores.embedded some 1 kind.restores (by decide) (fun _ => rfl) fun _ _ => rfl

theorem kindRestored (t : TypeRef) : t.KindRestored := by
  induction t with
  | unset marked =>
    constructor
    · rintro rfl
      exact Restores.nil
    · rintro rfl
      exact Restores.nil
  | named marked name =>
    constructor
    · rintro rfl
      exact Restores.ofName (named false) 1 name (by decide) (fun _ => rfl) fun _ _ => rfl
    · rintro rfl
      exact Restores.ofName (named true) 1 name (by decide) (fun _ => rfl) fun _ _ => rfl
  | untypedList marked =>
    have law : Restores mergeElement 0 none [] none := Restores.nil
    constructor
    · rintro rfl
      exact Restores.embedded (ofElement false) 2 law (by decide) (fun _ => rfl) fun _ _ => rfl
    · rintro rfl
      exact Restores.embedded (ofElement true) 2 law (by decide) (fun _ => rfl) fun _ _ => rfl
  | list marked element ih =>
    have law := ih.element
    constructor
    · rintro rfl
      exact Restores.embedded (ofElement false) 2 law (by decide) (fun _ => rfl) fun _ _ => rfl
    · rintro rfl
      exact Restores.embedded (ofElement true) 2 law (by decide) (fun _ => rfl) fun _ _ => rfl

instance : Nested TypeRef where
  depth := nestingDepth
  restores t := (kindRestored t).restores

end TypeRef

/-! ## Values -/

namespace Value

mutual

/-- Levels below a value. -/
def nestingDepth : Value → Nat
  | .unset | .int _ | .float _ | .string _ | .boolean _ => 0
  | .variable _ | .null | .enum _ => 1
  | .list items => itemsDepth items + 1
  | .object fields => fieldsDepth fields + 1

/-- Levels below the message of a list. -/
def itemsDepth : List Value → Nat
  | [] => 0
  | item :: rest => max (item.nestingDepth + 1) (itemsDepth rest)

/-- Levels below the message of an object, in which each field has a message of its own. -/
def fieldsDepth : List (String × Option Value) → Nat
  | [] => 0
  | (_, none) :: rest => max 1 (fieldsDepth rest)
  | (_, some value) :: rest => max (value.nestingDepth + 2) (fieldsDepth rest)

end

/-- The value is merged back. -/
def Restored (v : Value) : Prop :=
  Restores merge v.nestingDepth .unset v.records v

theorem restores_items (items before : List Value) (laws : ∀ v ∈ items, v.Restored) :
    Restores mergeItem (itemsDepth items) before (itemRecords items) (before ++ items) := by
  have written : itemRecords items =
      items.map fun v => ⟨1, .bytes (writeRecords v.records)⟩ := by
    clear laws
    induction items with
    | nil => rfl
    | cons v rest ih => rw [itemRecords, ih, List.map_cons]
  have depth : itemsDepth items = nesting nestingDepth items := by
    clear laws written
    induction items with
    | nil => rfl
    | cons v rest ih => rw [itemsDepth, ih, nesting, nesting, List.foldr_cons]
  rw [written, depth]
  exact Restores.embeddedList id 1 items before laws (by decide) (fun _ _ => rfl)
    fun _ _ _ => rfl

/-- The records of one field of an object. -/
def fieldRecord (field : String × Option Value) : List Record :=
  Record.ofText 1 field.1 ++ Record.ofMessage 2 field.2

def fieldDepth (field : String × Option Value) : Nat :=
  optionNesting nestingDepth field.2

theorem restores_field (field : String × Option Value) (law : ∀ v, field.2 = some v → v.Restored) :
    Restores mergeFieldPart (fieldDepth field) ("", none) (fieldRecord field) field := by
  obtain ⟨name, value⟩ := field
  have text : Restores mergeFieldPart 0 ("", none) (Record.ofText 1 name) (name, none) :=
    Restores.ofText (fun name => (name, none)) 1 name (by decide) fun limit _ => by
      cases limit <;> rfl
  cases value with
  | none => exact text.append Restores.nil
  | some v =>
    have part : Restores mergeFieldPart (v.nestingDepth + 1) (name, none)
        [⟨2, .bytes (writeRecords v.records)⟩] (name, some v) :=
      Restores.embedded (fun v => (name, some v)) 2 (law v rfl) (by decide) (fun _ => rfl)
        fun _ _ => rfl
    have both := text.append part
    rwa [Nat.zero_max] at both

theorem restores_fields (fields before : List (String × Option Value))
    (laws : ∀ field ∈ fields, ∀ v, field.2 = some v → v.Restored) :
    Restores mergeField (fieldsDepth fields) before (fieldRecords fields) (before ++ fields) := by
  have written : fieldRecords fields =
      fields.map fun field => ⟨1, .bytes (writeRecords (fieldRecord field))⟩ := by
    clear laws
    induction fields with
    | nil => rfl
    | cons field rest ih =>
      obtain ⟨name, _ | value⟩ := field
      · rw [fieldRecords, ih, List.map_cons, fieldRecord]
        simp [Record.ofMessage]
      · rw [fieldRecords, ih, List.map_cons, fieldRecord]
        rfl
  have depth : fieldsDepth fields = nesting fieldDepth fields := by
    clear laws written
    induction fields with
    | nil => rfl
    | cons field rest ih =>
      obtain ⟨name, _ | value⟩ := field
      · rw [fieldsDepth, ih]
        rfl
      · rw [fieldsDepth, ih]
        simp [nesting, fieldDepth, optionNesting]
  rw [written, depth]
  exact Restores.embeddedList id 1 fields before (fun field member => restores_field field
    (laws field member)) (by decide) (fun _ _ => rfl) fun _ _ _ => rfl

/-- A value in a record that embeds no message. -/
theorem restored_scalar {v : Value} (number : Nat) (payload : Payload)
    (written : v.records = [⟨number, payload⟩]) (flat : v.nestingDepth = 0)
    (known : number ∈ [2, 3, 4, 5]) (noGroup : ∀ levels, payload ≠ .group levels)
    (read : mergeScalar? ⟨number, payload⟩ = some v) : v.Restored := by
  rw [Restored, written, flat]
  simp only [List.mem_cons, List.not_mem_nil, or_false] at known
  have valid : ValidNumber number := by
    rcases known with rfl | rfl | rfl | rfl <;> decide
  refine Restores.single valid noGroup fun limit => ?_
  cases limit with
  | zero => exact read
  | succ limit => rcases known with rfl | rfl | rfl | rfl <;> exact read

theorem restored_null : Value.null.Restored := by
  constructor
  · intro r member
    obtain rfl := List.mem_singleton.1 member
    exact ⟨by decide, nofun⟩
  · intro _ limit
    cases limit <;> rfl

mutual

theorem restored : (v : Value) → v.Restored
  | .unset => Restores.nil
  | .variable name =>
    Restores.ofName Value.variable 1 name (by decide) (fun _ => rfl) fun _ _ => rfl
  | .int n =>
    restored_scalar 2 (.varint n.toUInt64) rfl rfl (by decide) nofun
      (by simp [mergeScalar?, Record.int64?, Record.varint?])
  | .float x => restored_scalar 3 (.fixed64 x.bits) rfl rfl (by decide) nofun rfl
  | .string text =>
    restored_scalar 4 (.bytes text.toUTF8.toList) rfl rfl (by decide) nofun
      (congrArg (Option.map Value.string) (Record.text?_toUTF8 4 text))
  | .boolean b =>
    restored_scalar 5 (.varint (if b then 1 else 0)) rfl rfl (by decide) nofun
      (by cases b <;> rfl)
  | .null => restored_null
  | .enum symbol =>
    Restores.ofName Value.enum 7 symbol (by decide) (fun _ => rfl) fun _ _ => rfl
  | .list items =>
    Restores.embedded Value.list 8 (restores_items items [] (restored_items items)) (by decide)
      (fun _ => rfl) fun _ _ => rfl
  | .object fields =>
    Restores.embedded Value.object 9 (restores_fields fields [] (restored_fields fields))
      (by decide) (fun _ => rfl) fun _ _ => rfl

theorem restored_items : (items : List Value) → ∀ v ∈ items, v.Restored
  | [] => nofun
  | v :: rest => List.forall_mem_cons.2 ⟨restored v, restored_items rest⟩

theorem restored_fields : (fields : List (String × Option Value)) →
    ∀ field ∈ fields, ∀ v, field.2 = some v → v.Restored
  | [] => nofun
  | (_, none) :: rest => List.forall_mem_cons.2 ⟨nofun, restored_fields rest⟩
  | (_, some v) :: rest => List.forall_mem_cons.2
      ⟨fun _ found => Option.some.inj found ▸ restored v, restored_fields rest⟩

end

instance : Nested Value where
  depth := nestingDepth
  restores := restored

end Value

end SdlCompiler.Wire
