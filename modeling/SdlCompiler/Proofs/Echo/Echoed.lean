import SdlCompiler.Document.Grammar
import SdlCompiler.Echo.Sdl
import SdlCompiler.Proofs.Schema.Restating
import SdlCompiler.Proofs.Text.Rewriting

/-!
# Files after an echo

What a file becomes when it is written as text and compiled again: floats are rounded to what six
decimal places say of them, the descriptions of arguments are gone, and other descriptions are what
their block strings say. Nothing else changes.
-/

namespace SdlCompiler

/-- The float that six decimal places of a float are read as. -/
def Numeric.Binary64.reread (x : Binary64) : Binary64 :=
  (read? x.fixed).getD x

theorem Numeric.Binary64.read?_fixed_eq {x : Binary64} (finite : x.isFinite = true) :
    read? x.fixed = some x.reread ∧ x.reread.isFinite = true := by
  obtain ⟨y, read, finite⟩ := read?_fixed finite
  rw [reread, read]
  exact ⟨rfl, finite⟩

/-! ## Descriptions -/

section

variable {ρ τ ν ℓ : Type}

def Field.descriptions (f : Field τ ν) : List (Option String) :=
  f.description :: f.arguments.map InputValue.description

def Composite.descriptions (c : Composite ρ τ ν) : List (Option String) :=
  c.description :: c.fields.flatMap Field.descriptions

def Enum.descriptions (e : Enum ν) : List (Option String) :=
  e.description :: e.values.map EnumValue.description

def InputObject.descriptions (i : InputObject τ ν) : List (Option String) :=
  i.description :: i.fields.map InputValue.description

def DirectiveDefinition.descriptions (d : DirectiveDefinition τ ν ℓ) : List (Option String) :=
  d.description :: d.arguments.map InputValue.description

/-! ## The descriptions that are written -/

/-- A description and the margin that it is written with. -/
abbrev Shown : Type :=
  String × Option String

def Composite.shown (c : Composite ρ τ ν) : List Shown :=
  ("", c.description) :: c.fields.map fun f => (Echo.indent, f.description)

def Enum.shown (e : Enum ν) : List Shown :=
  ("", e.description) :: e.values.map fun v => (Echo.indent, v.description)

def InputObject.shown (i : InputObject τ ν) : List Shown :=
  ("", i.description) :: i.fields.map fun v => (Echo.indent, v.description)

/-! ## Definitions with other descriptions -/

variable {ρ' ρ'' τ' τ'' ν' ν'' ℓ' ℓ'' : Type} (outer inner : Option String → Option String)

/-- The field with another description, and none on its arguments. -/
def Field.redescribe (type : τ → τ') (value : ν → ν') (f : Field τ ν) : Field τ' ν' :=
  { f.map (fun _ => none) type value with description := inner f.description }

def Composite.redescribe (reference : ρ → ρ') (type : τ → τ') (value : ν → ν')
    (c : Composite ρ τ ν) : Composite ρ' τ' ν' :=
  { c.map (fun _ => none) reference type value with
    description := outer c.description, fields := c.fields.map (Field.redescribe inner type value) }

def Enum.redescribe (value : ν → ν') (e : Enum ν) : Enum ν' :=
  { e.map (fun _ => none) value with
    description := outer e.description, values := e.values.map (EnumValue.map inner value) }

def InputObject.redescribe (type : τ → τ') (value : ν → ν') (i : InputObject τ ν) :
    InputObject τ' ν' :=
  { i.map (fun _ => none) type value with
    description := outer i.description, fields := i.fields.map (InputValue.map inner type value) }

def DirectiveDefinition.redescribe (type : τ → τ') (value : ν → ν') (place : ℓ → ℓ')
    (d : DirectiveDefinition τ ν ℓ) : DirectiveDefinition τ' ν' ℓ' :=
  { d.map (fun _ => none) type value place with description := outer d.description }

section

variable {reference : ρ → ρ'} {reference' : ρ' → ρ''} {type : τ → τ'} {type' : τ' → τ''}
  {value : ν → ν'} {value' : ν' → ν''} {place : ℓ → ℓ'} {place' : ℓ' → ℓ''}

theorem Field.map_comp_redescribe :
    Field.map id type' value' ∘ Field.redescribe inner type value =
      Field.redescribe inner (type' ∘ type) (value' ∘ value) := by
  funext f
  simp [Field.redescribe, Field.map, Directive.map_comp, InputValue.map_comp]

theorem Composite.map_comp_redescribe :
    Composite.map id reference' type' value' ∘
        Composite.redescribe outer inner reference type value =
      Composite.redescribe outer inner (reference' ∘ reference) (type' ∘ type)
        (value' ∘ value) := by
  funext c
  simp [Composite.redescribe, Composite.map, Directive.map_comp, Field.map_comp_redescribe]

theorem Enum.map_comp_redescribe :
    Enum.map id value' ∘ Enum.redescribe outer inner value =
      Enum.redescribe outer inner (value' ∘ value) := by
  funext e
  simp [Enum.redescribe, Enum.map, Directive.map_comp, EnumValue.map_comp]

theorem InputObject.map_comp_redescribe :
    InputObject.map id type' value' ∘ InputObject.redescribe outer inner type value =
      InputObject.redescribe outer inner (type' ∘ type) (value' ∘ value) := by
  funext i
  simp [InputObject.redescribe, InputObject.map, Directive.map_comp, InputValue.map_comp]

theorem DirectiveDefinition.map_comp_redescribe :
    DirectiveDefinition.map id type' value' place' ∘
        DirectiveDefinition.redescribe outer type value place =
      DirectiveDefinition.redescribe outer (type' ∘ type) (value' ∘ value) (place' ∘ place) := by
  funext d
  simp [DirectiveDefinition.redescribe, DirectiveDefinition.map, InputValue.map_comp]

end

section

variable {outer inner} {R : ρ → Prop} {R' : ρ' → Prop} {T : τ → Prop} {T' : τ' → Prop}
  {V : ν → Prop} {V' : ν' → Prop} {L : ℓ → Prop} {L' : ℓ' → Prop} {reference : ρ → ρ'}
  {type : τ → τ'} {value : ν → ν'} {place : ℓ → ℓ'}

theorem Composite.Written.redescribe {c : Composite ρ τ ν} (written : c.Written R T V)
    (references : ∀ r, R r → R' (reference r)) (types : ∀ t, T t → T' (type t))
    (values : ∀ v, V v → V' (value v)) :
    (c.redescribe outer inner reference type value).Written R' T' V' := by
  have plain : (c.map (fun _ => none) reference type value).Written R' T' V' :=
    written.map references types values
  refine ⟨plain.name, plain.implements, plain.directives, List.forall_mem_map.2 fun f member => ?_⟩
  have field : (f.map (fun _ => none) type value).Written T' V' :=
    (written.fields f member).map types values
  exact ⟨field.name, field.arguments, field.type, field.directives⟩

theorem Enum.Written.redescribe {e : Enum ν} (written : e.Written V)
    (values : ∀ v, V v → V' (value v)) : (e.redescribe outer inner value).Written V' := by
  have plain : (e.map (fun _ => none) value).Written V' := written.map values
  refine ⟨plain.name, plain.directives, List.forall_mem_map.2 fun v member => ?_⟩
  have symbol := written.values v member
  exact ⟨symbol.name, symbol.free, Directive.Written.mapAll symbol.directives values⟩

theorem InputObject.Written.redescribe {i : InputObject τ ν} (written : i.Written T V)
    (types : ∀ t, T t → T' (type t)) (values : ∀ v, V v → V' (value v)) :
    (i.redescribe outer inner type value).Written T' V' := by
  have plain : (i.map (fun _ => none) type value).Written T' V' := written.map types values
  exact ⟨plain.name, plain.directives, List.forall_mem_map.2 fun v member =>
    (written.fields v member).map types values⟩

theorem DirectiveDefinition.Written.redescribe {d : DirectiveDefinition τ ν ℓ}
    (written : d.Written T V L) (types : ∀ t, T t → T' (type t))
    (values : ∀ v, V v → V' (value v)) (places : ∀ l, L l → L' (place l)) :
    (d.redescribe outer type value place).Written T' V' L' := by
  have plain : (d.map (fun _ => none) type value place).Written T' V' L' :=
    written.map types values places
  exact ⟨plain.name, plain.arguments, plain.nonempty, plain.locations⟩

/-! Only the descriptions that are shown matter. -/

variable {outer' inner' : Option String → Option String}

theorem Composite.redescribe_congr {c : Composite ρ τ ν}
    (same : ∀ d ∈ c.shown, outer d.2 = outer' d.2 ∧ inner d.2 = inner' d.2) :
    c.redescribe outer inner reference type value =
      c.redescribe outer' inner' reference type value := by
  simp only [Composite.shown, List.forall_mem_cons, List.forall_mem_map] at same
  have fields : c.fields.map (Field.redescribe inner type value) =
      c.fields.map (Field.redescribe inner' type value) :=
    List.map_congr_left fun f member => by
      rw [Field.redescribe, (same.2 f member).2]
      rfl
  rw [Composite.redescribe, same.1.1, fields]
  rfl

theorem Enum.redescribe_congr {e : Enum ν}
    (same : ∀ d ∈ e.shown, outer d.2 = outer' d.2 ∧ inner d.2 = inner' d.2) :
    e.redescribe outer inner value = e.redescribe outer' inner' value := by
  simp only [Enum.shown, List.forall_mem_cons, List.forall_mem_map] at same
  have values : e.values.map (EnumValue.map inner value) =
      e.values.map (EnumValue.map inner' value) :=
    List.map_congr_left fun v member => by
      rw [EnumValue.map, (same.2 v member).2]
      rfl
  rw [Enum.redescribe, same.1.1, values]
  rfl

theorem InputObject.redescribe_congr {i : InputObject τ ν}
    (same : ∀ d ∈ i.shown, outer d.2 = outer' d.2 ∧ inner d.2 = inner' d.2) :
    i.redescribe outer inner type value = i.redescribe outer' inner' type value := by
  simp only [InputObject.shown, List.forall_mem_cons, List.forall_mem_map] at same
  have fields : i.fields.map (InputValue.map inner type value) =
      i.fields.map (InputValue.map inner' type value) :=
    List.map_congr_left fun v member => by
      rw [InputValue.map, (same.2 v member).2]
      rfl
  rw [InputObject.redescribe, same.1.1, fields]
  rfl

end

end

/-! ## What descriptions are read as -/

namespace Echo

/-- Definitions are written without a margin, what is inside of them with one of spaces. -/
theorem spaces_none : ∀ c ∈ "".toList, c = ' ' := by
  simp

theorem spaces_indent : ∀ c ∈ indent.toList, c = ' ' :=
  fun _ member => List.eq_of_mem_replicate (n := 4) member

/-- What stands between the quotes of a description. -/
def descriptionContents (margin : String) (description : Option String) : List Char :=
  Text.BlockString.contents margin.toList (description.getD "").toList

/-- What a description is read as when it has been written. An empty one is not written, and one
that has no value counts as an empty one. -/
def rereadDescription (margin : String) (description : Option String) : Option String :=
  if description.getD "" = "" then none
  else some ((Document.Grammar.block (descriptionContents margin description)).toOption.getD "")

end Echo

namespace Schema

/-- All descriptions in a file. -/
def File.descriptions (file : File) : List (Option String) :=
  (file.objects ++ file.interfaces).flatMap Composite.descriptions ++
    file.unions.map Union.description ++ file.enums.flatMap Enum.descriptions ++
    file.scalars.map Scalar.description ++ file.inputs.flatMap InputObject.descriptions ++
    file.directives.flatMap DirectiveDefinition.descriptions

/-! ## Echoed files -/

def Value.echoed : Value → Value :=
  SdlCompiler.Value.map id Numeric.Binary64.reread

namespace File

/-- The file with its descriptions gone and its floats rounded to six decimal places. -/
def echoed (file : File) : File :=
  { name := file.name,
    schema :=
      { file.schema with directives := file.schema.directives.map (Directive.map Value.echoed) },
    objects := file.objects.map (Composite.map (fun _ => none) id id Value.echoed),
    interfaces := file.interfaces.map (Composite.map (fun _ => none) id id Value.echoed),
    unions := file.unions.map (Union.map (fun _ => none) id Value.echoed),
    enums := file.enums.map (Enum.map (fun _ => none) Value.echoed),
    scalars := file.scalars.map (Scalar.map (fun _ => none) Value.echoed),
    inputs := file.inputs.map (InputObject.map (fun _ => none) id Value.echoed),
    directives := file.directives.map
      (DirectiveDefinition.map (fun _ => none) id Value.echoed id) }

/-- The file with other descriptions, none of them on arguments, and its floats rounded to six
decimal places. -/
def redescribed (outer inner : Option String → Option String) (file : File) : File :=
  { name := file.name,
    schema :=
      { file.schema with directives := file.schema.directives.map (Directive.map Value.echoed) },
    objects := file.objects.map (Composite.redescribe outer inner id id Value.echoed),
    interfaces := file.interfaces.map (Composite.redescribe outer inner id id Value.echoed),
    unions := file.unions.map (Union.map outer id Value.echoed),
    enums := file.enums.map (Enum.redescribe outer inner Value.echoed),
    scalars := file.scalars.map (Scalar.map outer Value.echoed),
    inputs := file.inputs.map (InputObject.redescribe outer inner id Value.echoed),
    directives := file.directives.map
      (DirectiveDefinition.redescribe outer id Value.echoed id) }

/-- The file as its text says. -/
def reread : File → File :=
  redescribed (Echo.rereadDescription "") (Echo.rereadDescription Echo.indent)

/-- The descriptions of a file that are written. -/
def shown (file : File) : List Shown :=
  file.objects.flatMap Composite.shown ++ file.interfaces.flatMap Composite.shown ++
    file.unions.map (fun u => ("", u.description)) ++ file.enums.flatMap Enum.shown ++
    file.scalars.map (fun s => ("", s.description)) ++ file.inputs.flatMap InputObject.shown ++
    file.directives.map fun d => ("", d.description)

variable {file : File} {outer inner : Option String → Option String}

theorem mem_descriptions {d : Shown} (shown : d ∈ file.shown) : d.2 ∈ file.descriptions := by
  simp only [File.shown, Composite.shown, Enum.shown, InputObject.shown, List.mem_append,
    List.mem_flatMap, List.mem_cons, List.mem_map] at shown
  simp only [descriptions, Composite.descriptions, Field.descriptions, Enum.descriptions,
    InputObject.descriptions, DirectiveDefinition.descriptions, List.mem_append,
    List.mem_flatMap, List.mem_cons, List.mem_map]
  grind

theorem redescribed_names : (file.redescribed outer inner).names = file.names := by
  simp only [names, redescribed, List.map_map]
  rfl

theorem redescribed_nameAt? (target : Target) :
    (file.redescribed outer inner).nameAt? target = file.nameAt? target := by
  cases target with
  | builtin scalar => rfl
  | object index | interface index | union index | enum index | scalar index | input index =>
    exact getElem?_map_name _ _ fun _ => rfl

theorem reread_interfaceName : file.reread.interfaceName = file.interfaceName := by
  funext index
  rw [interfaceName, interfaceName, reread, redescribed_nameAt?]

theorem reread_objectName : file.reread.objectName = file.objectName := by
  funext index
  rw [objectName, objectName, reread, redescribed_nameAt?]

theorem finite_echoed {v : Value} (finite : v.Finite) : v.echoed.Finite :=
  Value.Written.map finite fun _ isFinite => (Numeric.Binary64.read?_fixed_eq isFinite).2

/-- An echo keeps every name and every reference. -/
theorem Sound.redescribed (sound : file.Sound) : (file.redescribed outer inner).Sound := by
  have refers : ∀ r, file.Refers r → (file.redescribed outer inner).Refers r := by
    intro r refers
    refine ⟨refers.isName, (redescribed_nameAt? r.target).trans refers.named, ?_⟩
    rw [redescribed_names]
    exact refers.builtin
  have knows : ∀ t, file.Knows t → (file.redescribed outer inner).Knows t := fun t knows =>
    ⟨knows.depth, refers _ knows.refers⟩
  have values : ∀ v : Value, v.Finite → v.echoed.Finite := fun v finite => finite_echoed finite
  have inside : (file.redescribed outer inner).interfaces.length = file.interfaces.length :=
    List.length_map ..
  have interfaces : ∀ index, index < file.interfaces.length →
      index < (file.redescribed outer inner).interfaces.length := fun index => inside ▸ id
  constructor
  case distinct =>
    rw [redescribed_names]
    exact sound.distinct
  case applied => exact Directive.Written.mapAll sound.applied values
  case roots =>
    intro operation index isRoot
    rw [File.redescribed, List.length_map]
    refine sound.roots operation index ?_
    cases operation <;> exact isRoot
  case objects =>
    exact List.forall_mem_map.2 fun c member =>
      (sound.objects c member).redescribe interfaces knows values
  case interfaces =>
    exact List.forall_mem_map.2 fun c member =>
      (sound.interfaces c member).redescribe interfaces knows values
  case unions =>
    exact List.forall_mem_map.2 fun u member => (sound.unions u member).map refers values
  case enums =>
    exact List.forall_mem_map.2 fun e member => (sound.enums e member).redescribe values
  case scalars => exact List.forall_mem_map.2 fun s member => (sound.scalars s member).map values
  case inputs =>
    exact List.forall_mem_map.2 fun i member => (sound.inputs i member).redescribe knows values
  case directives =>
    exact List.forall_mem_map.2 fun d member =>
      (sound.directives d member).redescribe knows values fun _ _ => trivial

theorem Sound.echoed (sound : file.Sound) : file.echoed.Sound :=
  @Sound.redescribed file (fun _ => none) (fun _ => none) sound

theorem Sound.reread (sound : file.Sound) : file.reread.Sound :=
  sound.redescribed

/-- Where no description is written, none is read. -/
theorem reread_eq_echoed (blank : ∀ d ∈ file.shown, d.2.getD "" = "") :
    file.reread = file.echoed := by
  have gone : ∀ d ∈ file.shown, Echo.rereadDescription "" d.2 = none ∧
      Echo.rereadDescription Echo.indent d.2 = none :=
    fun d member => ⟨if_pos (blank d member), if_pos (blank d member)⟩
  simp only [shown, List.forall_mem_append, List.forall_mem_map, List.forall_mem_flatMap] at gone
  obtain ⟨⟨⟨⟨⟨⟨objects, interfaces⟩, unions⟩, enums⟩, scalars⟩, inputs⟩, directives⟩ := gone
  show _ = file.redescribed (fun _ => none) (fun _ => none)
  unfold reread redescribed
  congr 1
  · exact List.map_congr_left fun c member => Composite.redescribe_congr (objects c member)
  · exact List.map_congr_left fun c member => Composite.redescribe_congr (interfaces c member)
  · exact List.map_congr_left fun u member => by rw [Union.map, (unions u member).1]; rfl
  · exact List.map_congr_left fun e member => Enum.redescribe_congr (enums e member)
  · exact List.map_congr_left fun s member => by rw [Scalar.map, (scalars s member).1]; rfl
  · exact List.map_congr_left fun i member => InputObject.redescribe_congr (inputs i member)
  · exact List.map_congr_left fun d member => by
      rw [DirectiveDefinition.redescribe, (directives d member).1]
      rfl

end File

end Schema

end SdlCompiler
