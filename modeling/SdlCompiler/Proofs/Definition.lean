import SdlCompiler.Definition
import SdlCompiler.Value

/-!
# Definitions part by part

Induction over values, and definitions with their descriptions, references, types, values and
locations replaced one by one.
-/

namespace SdlCompiler

variable {ι ι' φ φ' ρ ρ' τ τ' ν ν' ℓ ℓ' : Type}

namespace Value

mutual

/-- The value with each of its numbers replaced. -/
def map (int : ι → ι') (float : φ → φ') : Value ι φ → Value ι' φ'
  | .variable name => .variable name
  | .int literal => .int (int literal)
  | .float literal => .float (float literal)
  | .string text => .string text
  | .boolean value => .boolean value
  | .null => .null
  | .enum symbol => .enum symbol
  | .list items => .list (mapItems int float items)
  | .object fields => .object (mapFields int float fields)

def mapItems (int : ι → ι') (float : φ → φ') : List (Value ι φ) → List (Value ι' φ')
  | [] => []
  | item :: rest => item.map int float :: mapItems int float rest

def mapFields (int : ι → ι') (float : φ → φ') :
    List (String × Value ι φ) → List (String × Value ι' φ')
  | [] => []
  | (name, value) :: rest => (name, value.map int float) :: mapFields int float rest

end

mutual

theorem map_id (v : Value ι φ) : v.map id id = v := by
  cases v with
  | list items => rw [map, mapItems_id items]
  | object fields => rw [map, mapFields_id fields]
  | _ => rfl

theorem mapItems_id (items : List (Value ι φ)) : mapItems id id items = items := by
  cases items with
  | nil => rfl
  | cons item rest => rw [mapItems, map_id item, mapItems_id rest]

theorem mapFields_id (fields : List (String × Value ι φ)) : mapFields id id fields = fields := by
  cases fields with
  | nil => rfl
  | cons field rest =>
    obtain ⟨name, value⟩ := field
    rw [mapFields, map_id value, mapFields_id rest]

end

variable {int : ι → ι'} {float : φ → φ'}

theorem map_list (items : List (Value ι φ)) :
    map int float (.list items) = .list (items.map (map int float)) := by
  rw [map]
  congr 1
  induction items with
  | nil => rfl
  | cons item rest ih => rw [mapItems, ih, List.map_cons]

theorem map_object (fields : List (String × Value ι φ)) :
    map int float (.object fields) =
      .object (fields.map fun field => (field.1, field.2.map int float)) := by
  rw [map]
  congr 1
  induction fields with
  | nil => rfl
  | cons field rest ih => rw [mapFields, ih, List.map_cons]

end Value

/-! ## Definitions -/

def Directive.map (value : ν → ν') (d : Directive ν) : Directive ν' :=
  { name := d.name, arguments := d.arguments.map fun argument => (argument.1, value argument.2) }

def InputValue.map (text : Option String → Option String) (type : τ → τ') (value : ν → ν')
    (v : InputValue τ ν) : InputValue τ' ν' :=
  { name := v.name, description := text v.description, type := type v.type,
    default := v.default.map value, directives := v.directives.map (Directive.map value) }

def Field.map (text : Option String → Option String) (type : τ → τ') (value : ν → ν')
    (f : Field τ ν) : Field τ' ν' :=
  { name := f.name, description := text f.description,
    arguments := f.arguments.map (InputValue.map text type value), type := type f.type,
    directives := f.directives.map (Directive.map value) }

def Scalar.map (text : Option String → Option String) (value : ν → ν') (s : Scalar ν) :
    Scalar ν' :=
  { name := s.name, description := text s.description,
    directives := s.directives.map (Directive.map value) }

def Composite.map (text : Option String → Option String) (reference : ρ → ρ') (type : τ → τ')
    (value : ν → ν') (c : Composite ρ τ ν) : Composite ρ' τ' ν' :=
  { name := c.name, description := text c.description, implements := c.implements.map reference,
    directives := c.directives.map (Directive.map value),
    fields := c.fields.map (Field.map text type value) }

def Union.map (text : Option String → Option String) (reference : ρ → ρ') (value : ν → ν')
    (u : Union ρ ν) : Union ρ' ν' :=
  { name := u.name, description := text u.description,
    directives := u.directives.map (Directive.map value), members := u.members.map reference }

def EnumValue.map (text : Option String → Option String) (value : ν → ν') (v : EnumValue ν) :
    EnumValue ν' :=
  { name := v.name, description := text v.description,
    directives := v.directives.map (Directive.map value) }

def Enum.map (text : Option String → Option String) (value : ν → ν') (e : Enum ν) : Enum ν' :=
  { name := e.name, description := text e.description,
    directives := e.directives.map (Directive.map value),
    values := e.values.map (EnumValue.map text value) }

def InputObject.map (text : Option String → Option String) (type : τ → τ') (value : ν → ν')
    (i : InputObject τ ν) : InputObject τ' ν' :=
  { name := i.name, description := text i.description,
    directives := i.directives.map (Directive.map value),
    fields := i.fields.map (InputValue.map text type value) }

def DirectiveDefinition.map (text : Option String → Option String) (type : τ → τ')
    (value : ν → ν') (place : ℓ → ℓ') (d : DirectiveDefinition τ ν ℓ) :
    DirectiveDefinition τ' ν' ℓ' :=
  { name := d.name, description := text d.description,
    arguments := d.arguments.map (InputValue.map text type value),
    locations := d.locations.map place, repeatable := d.repeatable }

/-! ## Parts left as they are -/

theorem Directive.map_id : Directive.map (id : ν → ν) = id := by
  funext d
  simp [Directive.map]

theorem InputValue.map_id : InputValue.map id (id : τ → τ) (id : ν → ν) = id := by
  funext v
  simp [InputValue.map, Directive.map_id]

theorem Field.map_id : Field.map id (id : τ → τ) (id : ν → ν) = id := by
  funext f
  simp [Field.map, InputValue.map_id, Directive.map_id]

theorem Scalar.map_id : Scalar.map id (id : ν → ν) = id := by
  funext s
  simp [Scalar.map, Directive.map_id]

theorem Composite.map_id : Composite.map id (id : ρ → ρ) (id : τ → τ) (id : ν → ν) = id := by
  funext c
  simp [Composite.map, Field.map_id, Directive.map_id]

theorem Union.map_id : Union.map id (id : ρ → ρ) (id : ν → ν) = id := by
  funext u
  simp [Union.map, Directive.map_id]

theorem Enum.map_id : Enum.map id (id : ν → ν) = id := by
  have values : EnumValue.map id (id : ν → ν) = id := by
    funext v
    simp [EnumValue.map, Directive.map_id]
  funext e
  simp [Enum.map, Directive.map_id, values]

theorem InputObject.map_id : InputObject.map id (id : τ → τ) (id : ν → ν) = id := by
  funext i
  simp [InputObject.map, InputValue.map_id, Directive.map_id]

theorem DirectiveDefinition.map_id :
    DirectiveDefinition.map id (id : τ → τ) (id : ν → ν) (id : ℓ → ℓ) = id := by
  funext d
  simp [DirectiveDefinition.map, InputValue.map_id]

/-! ## Parts replaced twice -/

section

variable {ι'' φ'' ρ'' τ'' ν'' ℓ'' : Type} {text text' : Option String → Option String}
  {reference : ρ → ρ'} {reference' : ρ' → ρ''} {type : τ → τ'} {type' : τ' → τ''}
  {value : ν → ν'} {value' : ν' → ν''} {place : ℓ → ℓ'} {place' : ℓ' → ℓ''}

theorem Directive.map_comp :
    Directive.map value' ∘ Directive.map value = Directive.map (value' ∘ value) := by
  funext d
  simp [Directive.map, Function.comp_def]

theorem InputValue.map_comp :
    InputValue.map text' type' value' ∘ InputValue.map text type value =
      InputValue.map (text' ∘ text) (type' ∘ type) (value' ∘ value) := by
  funext v
  simp [InputValue.map, Directive.map_comp]

theorem Field.map_comp :
    Field.map text' type' value' ∘ Field.map text type value =
      Field.map (text' ∘ text) (type' ∘ type) (value' ∘ value) := by
  funext f
  simp [Field.map, Directive.map_comp, InputValue.map_comp]

theorem Scalar.map_comp :
    Scalar.map text' value' ∘ Scalar.map text value =
      Scalar.map (text' ∘ text) (value' ∘ value) := by
  funext s
  simp [Scalar.map, Directive.map_comp]

theorem Composite.map_comp :
    Composite.map text' reference' type' value' ∘ Composite.map text reference type value =
      Composite.map (text' ∘ text) (reference' ∘ reference) (type' ∘ type) (value' ∘ value) := by
  funext c
  simp [Composite.map, Directive.map_comp, Field.map_comp]

theorem Union.map_comp :
    Union.map text' reference' value' ∘ Union.map text reference value =
      Union.map (text' ∘ text) (reference' ∘ reference) (value' ∘ value) := by
  funext u
  simp [Union.map, Directive.map_comp]

theorem EnumValue.map_comp :
    EnumValue.map text' value' ∘ EnumValue.map text value =
      EnumValue.map (text' ∘ text) (value' ∘ value) := by
  funext v
  simp [EnumValue.map, Directive.map_comp]

theorem Enum.map_comp :
    Enum.map text' value' ∘ Enum.map text value = Enum.map (text' ∘ text) (value' ∘ value) := by
  funext e
  simp [Enum.map, Directive.map_comp, EnumValue.map_comp]

theorem InputObject.map_comp :
    InputObject.map text' type' value' ∘ InputObject.map text type value =
      InputObject.map (text' ∘ text) (type' ∘ type) (value' ∘ value) := by
  funext i
  simp [InputObject.map, Directive.map_comp, InputValue.map_comp]

theorem DirectiveDefinition.map_comp :
    DirectiveDefinition.map text' type' value' place' ∘
        DirectiveDefinition.map text type value place =
      DirectiveDefinition.map (text' ∘ text) (type' ∘ type) (value' ∘ value)
        (place' ∘ place) := by
  funext d
  simp [DirectiveDefinition.map, InputValue.map_comp]

end

end SdlCompiler
