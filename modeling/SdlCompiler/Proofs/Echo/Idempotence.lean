import SdlCompiler.Proofs.Echo.Recompiling
import SdlCompiler.Proofs.Numeric.Stability

/-!
# Echoing an echo

A text that compiles is echoed as the text of its file. The echo compiles again just if every
description in it can be read, and is echoed as itself just if every one of them also lasts: what
it is read as is written as it was. Values, types and directives always last, although floats are
rounded when they are written.
-/

namespace SdlCompiler.Echo

open Document Schema Text

variable {file : Schema.File}

/-! ## What is written alike -/

theorem valueText_echoed {v : Schema.Value} (finite : v.Finite) :
    valueText (.ofSchema v.echoed) = valueText (.ofSchema v) := by
  induction finite with
  | int | string | boolean | null | enum => rfl
  | @float x finite =>
    have read := (Numeric.Binary64.read?_fixed_eq finite).1
    exact congrArg String.ofList (Numeric.Binary64.fixed_of_read? finite read)
  | @list items _ ih =>
    rw [Schema.Value.echoed, SdlCompiler.Value.map_list, Wire.Value.ofSchema, valueText,
      itemTexts_eq, List.map_map, Wire.Value.ofSchema, valueText, itemTexts_eq]
    exact congrArg (fun texts => "[" ++ ", ".intercalate texts ++ "]") (List.map_congr_left ih)
  | @object fields _ _ ih =>
    rw [Schema.Value.echoed, SdlCompiler.Value.map_object, Wire.Value.ofSchema, valueText,
      fieldTexts_eq, List.map_map, Wire.Value.ofSchema, valueText, fieldTexts_eq]
    refine congrArg (fun texts => "\x7b" ++ ", ".intercalate texts ++ "\x7d")
      (List.map_congr_left fun field member => ?_)
    exact congrArg (field.1 ++ ": " ++ ·) (ih field member)

theorem directiveText_echoed {d : Schema.Directive} (written : d.Written Value.Finite) :
    directiveText (.ofSchema (d.map Value.echoed)) = directiveText (.ofSchema d) := by
  obtain ⟨directiveName, arguments⟩ := d
  have same := List.map_congr_left fun entry (member : entry ∈ arguments) =>
    congrArg (entry.1 ++ ": " ++ ·) (valueText_echoed (written.arguments entry member).2)
  simp only [directiveText, Wire.Directive.ofSchema, Directive.map, List.map_map, List.isEmpty_map]
  exact congrArg (fun texts => " @" ++ directiveName ++
    if arguments.isEmpty then "" else "(" ++ ", ".intercalate texts ++ ")") same

theorem directivesText_echoed {ds : List Schema.Directive}
    (written : ∀ d ∈ ds, d.Written Value.Finite) :
    directivesText ((ds.map (Directive.map Value.echoed)).map Wire.Directive.ofSchema) =
      directivesText (ds.map Wire.Directive.ofSchema) := by
  simp only [directivesText, List.map_map]
  exact congrArg String.join
    (List.map_congr_left fun d member => directiveText_echoed (written d member))

theorem inputValueText?_echoed {T : Schema.TypeRef → Prop} {v : Schema.InputValue}
    (written : v.Written T Value.Finite) (description : Option String → Option String) :
    inputValueText? (.ofSchema (v.map description id Value.echoed)) =
      inputValueText? (.ofSchema v) := by
  have default : ((v.default.map Value.echoed).map Wire.Value.ofSchema).map
        (fun value => " = " ++ valueText value) =
      (v.default.map Wire.Value.ofSchema).map fun value => " = " ++ valueText value := by
    cases isDefault : v.default with
    | none => rfl
    | some x =>
      exact congrArg (fun text => some (" = " ++ text))
        (valueText_echoed (written.default x isDefault))
  simp only [inputValueText?, Wire.InputValue.ofSchema, InputValue.map, default,
    directivesText_echoed written.directives, id]

theorem argumentsText?_echoed {T : Schema.TypeRef → Prop} {vs : List Schema.InputValue}
    (written : ∀ v ∈ vs, v.Written T Value.Finite) (description : Option String → Option String) :
    argumentsText? ((vs.map (InputValue.map description id Value.echoed)).map
        Wire.InputValue.ofSchema) =
      argumentsText? (vs.map Wire.InputValue.ofSchema) := by
  have same : ((vs.map (InputValue.map description id Value.echoed)).map
      Wire.InputValue.ofSchema).mapM inputValueText? =
        (vs.map Wire.InputValue.ofSchema).mapM inputValueText? := by
    simp only [List.mapM_map]
    exact Outcome.mapM_congr fun v member => inputValueText?_echoed (written v member) description
  unfold argumentsText?
  rw [same]
  simp only [List.isEmpty_map]

/-! ## Texts in place of others -/

/-- A text in place of another, which is the same text just in the case that is named. -/
def Rewrites (same : Prop) (before after : String) : Prop :=
  Shrinks same before.toList after.toList

theorem Rewrites.refl (text : String) : Rewrites True text text :=
  Shrinks.refl text.toList

theorem Rewrites.append {p q : Prop} {before after before' after' : String}
    (first : Rewrites p before after) (second : Rewrites q before' after') :
    Rewrites (p ∧ q) (before ++ before') (after ++ after') := by
  rw [Rewrites, String.toList_append, String.toList_append]
  exact Shrinks.append first second

theorem Rewrites.congr {p q : Prop} {before after : String} (rewrites : Rewrites p before after)
    (same : p ↔ q) : Rewrites q before after :=
  Shrinks.congr rewrites same

/-- Before a text that stays. -/
theorem Rewrites.before {p : Prop} {before after : String} (rewrites : Rewrites p before after)
    (text : String) : Rewrites p (before ++ text) (after ++ text) :=
  (rewrites.append (.refl text)).congr (and_iff_left trivial)

/-- After a text that stays. -/
theorem Rewrites.after {p : Prop} {before after : String} (rewrites : Rewrites p before after)
    (text : String) : Rewrites p (text ++ before) (text ++ after) :=
  ((Rewrites.refl text).append rewrites).congr (and_iff_right trivial)

/-- Texts in place of others, one by one. -/
inductive RewritesAll : Prop → List String → List String → Prop
  | nil : RewritesAll True [] []
  | cons {p q : Prop} {before after : String} {befores afters : List String}
      (first : Rewrites p before after) (others : RewritesAll q befores afters) :
      RewritesAll (p ∧ q) (before :: befores) (after :: afters)

namespace RewritesAll

variable {p q : Prop} {befores afters befores' afters' : List String}

theorem congr (rewrites : RewritesAll p befores afters) (same : p ↔ q) :
    RewritesAll q befores afters :=
  propext same ▸ rewrites

theorem append (first : RewritesAll p befores afters) (second : RewritesAll q befores' afters') :
    RewritesAll (p ∧ q) (befores ++ befores') (afters ++ afters') := by
  induction first with
  | nil => exact second.congr (and_iff_right trivial).symm
  | cons here _ ih => exact (RewritesAll.cons here ih).congr (and_assoc ..).symm

theorem map {α : Type} {xs : List α} {f g : α → String} {same : α → Prop}
    (each : ∀ x ∈ xs, Rewrites (same x) (f x) (g x)) :
    RewritesAll (∀ x ∈ xs, same x) (xs.map f) (xs.map g) := by
  induction xs with
  | nil => exact RewritesAll.nil.congr (by simp)
  | cons x xs ih =>
    obtain ⟨first, others⟩ := List.forall_mem_cons.1 each
    exact (RewritesAll.cons first (ih others)).congr List.forall_mem_cons.symm

theorem join (rewrites : RewritesAll p befores afters) :
    Rewrites p (String.join befores) (String.join afters) := by
  induction rewrites with
  | nil => exact .refl _
  | cons first _ ih =>
    rw [String.join_cons, String.join_cons]
    exact first.append ih

theorem body (rewrites : RewritesAll p befores afters) :
    Rewrites p (bodyText befores) (bodyText afters) := by
  cases rewrites with
  | nil => exact .refl _
  | cons first others =>
    exact (Rewrites.after (RewritesAll.cons first others).join _).before _

theorem intercalate (separator : String) (rewrites : RewritesAll p befores afters) :
    Rewrites p (separator.intercalate befores) (separator.intercalate afters) := by
  induction rewrites with
  | nil => exact .refl _
  | cons first others ih =>
    cases others with
    | nil =>
      rw [String.intercalate_singleton, String.intercalate_singleton]
      exact first.congr (and_iff_left trivial).symm
    | cons =>
      rw [String.intercalate_cons_cons, String.intercalate_cons_cons]
      exact (first.before separator).append ih

end RewritesAll

/-! ## Texts that may be missing -/

theorem rel_bind {α α' β β' : Type} {R : α → α' → Prop} {S : β → β' → Prop} {x : Option α}
    {x' : Option α'} {f : α → Option β} {f' : α' → Option β'} (first : Option.Rel R x x')
    (next : ∀ a a', R a a' → Option.Rel S (f a) (f' a')) :
    Option.Rel S (x >>= f) (x' >>= f') := by
  cases first with
  | none => exact .none
  | some related => exact next _ _ related

/-- What comes before is the same. -/
theorem rel_bind_same {α β : Type} {S : β → β → Prop} (x : Option α) {f g : α → Option β}
    (next : ∀ a, Option.Rel S (f a) (g a)) : Option.Rel S (x >>= f) (x >>= g) := by
  cases x with
  | none => exact .none
  | some a => exact next a

/-- Texts of what is made of the same definitions in two ways. -/
theorem rel_mapM {α β : Type} {G H : α → β → Prop} {same : α → Prop} {text? : β → Option String}
    {xs : List α} {ys zs : List β} (given : List.Forall₂ G xs ys) (given' : List.Forall₂ H xs zs)
    (each : ∀ x ∈ xs, ∀ y z, G x y → H x z → Option.Rel (Rewrites (same x)) (text? y) (text? z)) :
    Option.Rel (RewritesAll (∀ x ∈ xs, same x)) (ys.mapM text?) (zs.mapM text?) := by
  induction given generalizing zs with
  | nil =>
    cases given'
    exact .some (RewritesAll.nil.congr (by simp))
  | cons first _ ih =>
    cases given' with
    | cons first' others' =>
      obtain ⟨here, others⟩ := List.forall_mem_cons.1 each
      rw [List.mapM_cons, List.mapM_cons]
      refine rel_bind (here _ _ first first') fun text text' rewrites => ?_
      refine rel_bind (ih others' others) fun texts texts' rewritesAll => ?_
      exact .some ((RewritesAll.cons rewrites rewritesAll).congr List.forall_mem_cons.symm)

/-- Texts of definitions, and of the same definitions after a change. -/
theorem rel_mapM_map {α β : Type} {same : α → Prop} {text? : β → Option String} (convert : α → β)
    (change : α → α) {xs : List α} (each : ∀ x ∈ xs,
      Option.Rel (Rewrites (same x)) (text? (convert x)) (text? (convert (change x)))) :
    Option.Rel (RewritesAll (∀ x ∈ xs, same x)) ((xs.map convert).mapM text?)
      (((xs.map change).map convert).mapM text?) := by
  have given : ∀ f : α → β, List.Forall₂ (fun x y => y = f x) xs (xs.map f) := fun f =>
    List.forall₂_map_right_iff.2 (List.forall₂_same.2 fun _ _ => rfl)
  rw [List.map_map]
  refine rel_mapM (given convert) (given (convert ∘ change)) ?_
  rintro x member _ _ rfl rfl
  exact each x member

/-! ## Descriptions -/

/-- A description that can be read, and is written again as it was: it is empty or not made of blanks
only, and of its lines none but blank ones end in a carriage return. -/
def Lasting (d : Shown) : Prop :=
  Readable d ∧ BlockString.Stable (d.2.getD "").toList

instance (d : Shown) : Decidable (Lasting d) :=
  inferInstanceAs (Decidable (_ ∧ _))

theorem rereadDescription_getD {margin : String} (spaces : ∀ c ∈ margin.toList, c = ' ')
    {description : Option String} (readable : Readable (margin, description)) :
    (rereadDescription margin description).getD "" =
      String.ofList (BlockString.reread (description.getD "").toList) := by
  unfold rereadDescription
  split
  · next blank =>
    rw [blank]
    rfl
  · next written =>
    obtain ⟨-, long⟩ := readable.resolve_left written
    have value : ¬(trim (description.getD "").toList ≠ [] ∧
        byteLength (descriptionContents margin description) < 6) := by
      rintro ⟨visible, short⟩
      exact Nat.not_lt.2 (long.resolve_left visible) short
    rw [block_description spaces, if_neg value]
    rfl

theorem description_rewrites {margin : String} (spaces : ∀ c ∈ margin.toList, c = ' ')
    {description : Option String} (readable : Readable (margin, description)) :
    Rewrites (Lasting (margin, description))
      (descriptionText margin (Wire.descriptionText description))
      (descriptionText margin (Wire.descriptionText (rereadDescription margin description))) := by
  have shrinks := BlockString.write_shrinks margin.toList (description.getD "").toList
  rw [Rewrites, descriptionText, descriptionText, Wire.descriptionText, Wire.descriptionText,
    rereadDescription_getD spaces readable]
  simp only [String.toList_ofList]
  exact shrinks.congr (and_iff_right readable).symm

/-! ## Parts of definitions -/

theorem fieldText?_rewrites {T : Schema.TypeRef → Prop} {f : Schema.Field}
    (written : f.Written T Value.Finite) (readable : Readable (indent, f.description)) :
    Option.Rel (Rewrites (Lasting (indent, f.description))) (fieldText? (.ofSchema f))
      (fieldText? (.ofSchema (f.redescribe (rereadDescription indent) id Value.echoed))) := by
  have described := description_rewrites spaces_indent readable
  simp only [fieldText?, Wire.Field.ofSchema, Field.redescribe, Field.map,
    argumentsText?_echoed written.arguments, directivesText_echoed written.directives, id,
    String.append_assoc]
  exact rel_bind_same _ fun _ => rel_bind_same _ fun _ => rel_bind_same _ fun _ =>
    .some (described.before _)

theorem inputFieldText?_rewrites {T : Schema.TypeRef → Prop} {v : Schema.InputValue}
    (written : v.Written T Value.Finite) (readable : Readable (indent, v.description)) :
    Option.Rel (Rewrites (Lasting (indent, v.description))) (inputFieldText? (.ofSchema v))
      (inputFieldText? (.ofSchema (v.map (rereadDescription indent) id Value.echoed))) := by
  have described := description_rewrites spaces_indent readable
  simp only [inputFieldText?, inputValueText?_echoed written, String.append_assoc]
  exact rel_bind_same _ fun _ => .some (described.before _)

theorem enumValueText_rewrites {v : Schema.EnumValue} (written : v.Written Value.Finite)
    (readable : Readable (indent, v.description)) :
    Rewrites (Lasting (indent, v.description))
      (enumValueText
        { name := v.name, description := Wire.descriptionText v.description,
          directives := v.directives.map Wire.Directive.ofSchema })
      (enumValueText
        { name := v.name,
          description := Wire.descriptionText (rereadDescription indent v.description),
          directives := (v.directives.map (Directive.map Value.echoed)).map
            Wire.Directive.ofSchema }) := by
  have described := description_rewrites spaces_indent readable
  simp only [enumValueText, directivesText_echoed written.directives, String.append_assoc]
  exact described.before _

theorem implementsText_congr {interfaces others : List Wire.Interface}
    (same : interfaces.map Wire.Interface.name = others.map Wire.Interface.name) :
    implementsText interfaces = implementsText others := by
  have empty : interfaces.isEmpty = others.isEmpty := by
    rw [← List.isEmpty_map (f := Wire.Interface.name), same, List.isEmpty_map]
  rw [implementsText, implementsText, same, empty]

/-! ## Definitions -/

theorem compositeText?_rewrites {R : Nat → Prop} {T : Schema.TypeRef → Prop}
    {c : Schema.Composite} (written : c.Written R T Value.Finite)
    (readable : ∀ d ∈ c.shown, Readable d) {again : Schema.File}
    (named : again.interfaceName = file.interfaceName) (keyword : String)
    {name description name' description' : String} {implements implements' : List Wire.Interface}
    {directives directives' : List Wire.Directive} {fields fields' : List Wire.Field}
    (gives : Wire.Gives file c name description implements directives fields)
    (gives' : Wire.Gives again (c.redescribe (rereadDescription "") (rereadDescription indent) id
      id Value.echoed) name' description' implements' directives' fields') :
    Option.Rel (Rewrites (∀ d ∈ c.shown, Lasting d))
      (compositeText? keyword name description implements directives fields)
      (compositeText? keyword name' description' implements' directives' fields') := by
  simp only [Composite.shown, List.forall_mem_cons, List.forall_mem_map] at readable ⊢
  obtain ⟨outer, inner⟩ := readable
  obtain ⟨rfl, rfl, parents, rfl, rfl⟩ := gives
  obtain ⟨rfl, rfl, parents', rfl, rfl⟩ := gives'
  have same : implementsText implements' = implementsText implements := by
    apply implementsText_congr
    rw [parents, parents', named]
    simp [Composite.redescribe, Composite.map]
  have lines := rel_mapM_map Wire.Field.ofSchema
    (Field.redescribe (rereadDescription indent) id Value.echoed) fun f member =>
      fieldText?_rewrites (written.fields f member) (inner f member)
  have described := description_rewrites spaces_none outer
  have applied := directivesText_echoed written.directives
  simp only [compositeText?, Composite.redescribe, Composite.map, same, applied]
  refine rel_bind lines fun texts texts' rewrites => .some ?_
  -- Between the description and the body, all is as it was.
  simp only [String.append_assoc]
  refine described.append ?_
  simp only [← String.append_assoc]
  exact rewrites.body.after _

theorem inputObjectText?_rewrites {T : Schema.TypeRef → Prop} {i : Schema.InputObject}
    (written : i.Written T Value.Finite) (readable : ∀ d ∈ i.shown, Readable d) :
    Option.Rel (Rewrites (∀ d ∈ i.shown, Lasting d)) (inputObjectText? (.ofSchema i))
      (inputObjectText? (.ofSchema
        (i.redescribe (rereadDescription "") (rereadDescription indent) id Value.echoed))) := by
  simp only [InputObject.shown, List.forall_mem_cons, List.forall_mem_map] at readable ⊢
  obtain ⟨outer, inner⟩ := readable
  have lines := rel_mapM_map Wire.InputValue.ofSchema
    (InputValue.map (rereadDescription indent) id Value.echoed) fun v member =>
      inputFieldText?_rewrites (written.fields v member) (inner v member)
  have described := description_rewrites spaces_none outer
  have applied := directivesText_echoed written.directives
  simp only [inputObjectText?, Wire.InputObject.ofSchema, InputObject.redescribe, InputObject.map,
    applied]
  refine rel_bind lines fun texts texts' rewrites => .some ?_
  -- Between the description and the body, all is as it was.
  simp only [String.append_assoc]
  refine described.append ?_
  simp only [← String.append_assoc]
  exact rewrites.body.after _

theorem enumText_rewrites {e : Schema.Enum} (written : e.Written Value.Finite)
    (readable : ∀ d ∈ e.shown, Readable d) :
    Rewrites (∀ d ∈ e.shown, Lasting d) (enumText (.ofSchema e))
      (enumText (.ofSchema
        (e.redescribe (rereadDescription "") (rereadDescription indent) Value.echoed))) := by
  simp only [Enum.shown, List.forall_mem_cons, List.forall_mem_map] at readable ⊢
  obtain ⟨outer, inner⟩ := readable
  have lines := RewritesAll.map fun v member =>
    enumValueText_rewrites (written.values v member) (inner v member)
  have described := description_rewrites spaces_none outer
  have applied := directivesText_echoed written.directives
  simp only [enumText, Wire.Enum.ofSchema, Enum.redescribe, Enum.map, applied,
    String.append_assoc]
  refine described.append ?_
  simp only [← String.append_assoc, List.map_map (l := e.values)]
  exact lines.body.after _

theorem unionText_rewrites {R : NamedType → Prop} {u : Schema.Union}
    (written : u.Written R Value.Finite) (readable : Readable ("", u.description)) :
    Rewrites (Lasting ("", u.description)) (unionText (.ofSchema u))
      (unionText (.ofSchema (u.map (rereadDescription "") id Value.echoed))) := by
  have described := description_rewrites spaces_none readable
  simp only [unionText, Wire.Union.ofSchema, Union.map, List.map_id,
    directivesText_echoed written.directives, String.append_assoc]
  exact described.before _

theorem scalarText_rewrites {s : Schema.Scalar} (written : s.Written Value.Finite)
    (readable : Readable ("", s.description)) :
    Rewrites (Lasting ("", s.description)) (scalarText (.ofScalar s))
      (scalarText (.ofScalar (s.map (rereadDescription "") Value.echoed))) := by
  have described := description_rewrites spaces_none readable
  simp only [scalarText, Wire.Symbol.ofScalar, Scalar.map,
    directivesText_echoed written.directives, String.append_assoc]
  exact described.before _

theorem directiveDefinitionText?_rewrites {T : Schema.TypeRef → Prop}
    {L : SdlCompiler.Location → Prop} {d : Schema.DirectiveDefinition}
    (written : d.Written T Value.Finite L) (readable : Readable ("", d.description)) :
    Option.Rel (Rewrites (Lasting ("", d.description))) (directiveDefinitionText? (.ofSchema d))
      (directiveDefinitionText? (.ofSchema
        (d.redescribe (rereadDescription "") id Value.echoed id))) := by
  have described := description_rewrites spaces_none readable
  simp only [directiveDefinitionText?, Wire.DirectiveDefinition.ofSchema,
    DirectiveDefinition.redescribe, DirectiveDefinition.map, List.map_id,
    argumentsText?_echoed written.arguments, String.append_assoc]
  exact rel_bind_same _ fun _ => .some (described.before _)

theorem rootText_congr (operation : String) {root root' : Option Wire.Object}
    (same : root.map Wire.Object.name = root'.map Wire.Object.name) :
    rootText operation root = rootText operation root' := by
  have named : ∀ root : Option Wire.Object, rootText operation root =
      ((root.map Wire.Object.name).map
        fun name => indent ++ operation ++ ": " ++ name ++ "\n").getD "" := by
    intro root
    rw [rootText, Option.map_map]
    rfl
  rw [named, named, same]

theorem rootsText_congr {roots roots' : Wire.Roots}
    (directives : directivesText roots'.directives = directivesText roots.directives)
    (query : roots'.query.map Wire.Object.name = roots.query.map Wire.Object.name)
    (mutation : roots'.mutation.map Wire.Object.name = roots.mutation.map Wire.Object.name)
    (subscription : roots'.subscription.map Wire.Object.name =
      roots.subscription.map Wire.Object.name) :
    rootsText roots' = rootsText roots := by
  rw [rootsText, rootsText, directives, rootText_congr "query" query,
    rootText_congr "mutation" mutation, rootText_congr "subscription" subscription]

/-! ## Files -/

/-- The text of the file that a text says differs from the text in descriptions only. -/
theorem fileText?_rewrites (sound : file.Sound) (readable : ∀ d ∈ file.shown, Readable d)
    {wire again : Wire.File} (converts : Wire.Converts file wire)
    (converts' : Wire.Converts file.reread again) :
    Option.Rel (Rewrites (∀ d ∈ file.shown, Lasting d)) (fileText? wire) (fileText? again) := by
  simp only [Schema.File.shown, List.forall_mem_append, List.forall_mem_map,
    List.forall_mem_flatMap] at readable
  obtain ⟨⟨⟨⟨⟨⟨objects, interfaces⟩, unions⟩, enums⟩, scalars⟩, inputs⟩, directives⟩ := readable
  have relObjects : Option.Rel (RewritesAll (∀ c ∈ file.objects, ∀ d ∈ c.shown, Lasting d))
      (wire.objects.mapM objectText?) (again.objects.mapM objectText?) :=
    rel_mapM converts.objects (List.forall₂_map_left_iff.1 converts'.objects)
      fun c member _ _ gives gives' => compositeText?_rewrites (sound.objects c member)
        (objects c member) Schema.File.reread_interfaceName "type" gives gives'
  have relInterfaces : Option.Rel (RewritesAll (∀ c ∈ file.interfaces, ∀ d ∈ c.shown, Lasting d))
      (wire.interfaces.mapM interfaceText?) (again.interfaces.mapM interfaceText?) :=
    rel_mapM converts.interfaces (List.forall₂_map_left_iff.1 converts'.interfaces)
      fun c member _ _ gives gives' => compositeText?_rewrites (sound.interfaces c member)
        (interfaces c member) Schema.File.reread_interfaceName "interface" gives gives'
  have relInputs := rel_mapM_map Wire.InputObject.ofSchema
    (InputObject.redescribe (rereadDescription "") (rereadDescription indent) id Value.echoed)
    fun i member => inputObjectText?_rewrites (sound.inputs i member) (inputs i member)
  have relDirectives := rel_mapM_map Wire.DirectiveDefinition.ofSchema
    (DirectiveDefinition.redescribe (rereadDescription "") id Value.echoed id)
    fun d member => directiveDefinitionText?_rewrites (sound.directives d member)
      (directives d member)
  have listedUnions := RewritesAll.map fun u member =>
    unionText_rewrites (sound.unions u member) (unions u member)
  have listedScalars := RewritesAll.map fun s member =>
    scalarText_rewrites (sound.scalars s member) (scalars s member)
  have listedEnums := RewritesAll.map fun e member =>
    enumText_rewrites (sound.enums e member) (enums e member)
  obtain ⟨roots, isSchema, applied, query, mutation, subscription⟩ := converts.schema
  obtain ⟨roots', isSchema', applied', query', mutation', subscription'⟩ := converts'.schema
  have sameRoots : rootsText roots' = rootsText roots := by
    rw [Schema.File.reread_objectName] at query' mutation' subscription'
    refine rootsText_congr ?_ (query'.trans query.symm) (mutation'.trans mutation.symm)
      (subscription'.trans subscription.symm)
    rw [applied, applied']
    exact directivesText_echoed sound.applied
  have listedRoots := RewritesAll.cons (.refl (rootsText roots)) .nil
  have blocks : Option.Rel (RewritesAll (∀ d ∈ file.shown, Lasting d)) (blocks? wire)
      (blocks? again) := by
    rw [blocks?, blocks?, isSchema, isSchema', converts.inputs, converts'.inputs,
      converts.directives, converts'.directives, converts.unions, converts'.unions,
      converts.scalars, converts'.scalars, converts.enums, converts'.enums, Option.map_some,
      Option.map_some, sameRoots]
    refine rel_bind relObjects fun _ _ listedObjects => rel_bind relInputs fun _ _ listedInputs =>
      rel_bind relInterfaces fun _ _ listedInterfaces =>
        rel_bind relDirectives fun _ _ listedDirectives => .some ?_
    simp only [Schema.File.reread, Schema.File.redescribed, List.map_map]
    refine RewritesAll.congr ((((((((listedRoots.append listedObjects).append listedInputs).append
      listedInterfaces).append listedUnions).append listedDirectives).append listedScalars).append
      listedEnums)) ?_
    -- The kinds of definitions stand in another order in the text than in the file.
    simp only [Schema.File.shown, List.forall_mem_append, List.forall_mem_map,
      List.forall_mem_flatMap]
    tauto
  exact rel_bind blocks fun _ _ rewrites => .some (rewrites.intercalate "\n")

/-- What a text says is written as the same text just if all descriptions last. -/
theorem fileText?_eq_some_iff (sound : file.Sound) (readable : ∀ d ∈ file.shown, Readable d)
    {wire again : Wire.File} {text : String} (converts : Wire.Converts file wire)
    (converts' : Wire.Converts file.reread again) (written : fileText? wire = some text) :
    fileText? again = some text ↔ ∀ d ∈ file.shown, Lasting d := by
  have rewrites := fileText?_rewrites sound readable converts converts'
  rw [written] at rewrites
  cases found : fileText? again with
  | none =>
    rw [found] at rewrites
    cases rewrites
  | some next =>
    rw [found] at rewrites
    cases rewrites with
    | some shrinks => rw [← shrinks.eq_iff, Option.some_inj, String.toList_inj]

/-! ## Echoes -/

/-- The text that a source is echoed as, if it compiles. -/
def echo? (name source : String) : Option String := do
  let file ← (Schema.compile name source).toOption
  let wire ← (Wire.File.ofSchema file).toOption
  fileText? wire

theorem echo?_of_compile {name source : String} {wire : Wire.File}
    (compiled : Schema.compile name source = .ok file)
    (made : Wire.File.ofSchema file = .ok wire) : echo? name source = fileText? wire := by
  rw [echo?, compiled]
  show (Wire.File.ofSchema file).toOption >>= fileText? = _
  rw [made]
  rfl

theorem exists_of_echo? {name source text : String} (echoed : echo? name source = some text) :
    ∃ file, Schema.compile name source = .ok file := by
  cases compiled : Schema.compile name source with
  | error abort =>
    rw [echo?, compiled] at echoed
    cases echoed
  | ok file => exact ⟨file, rfl⟩

/-- Every source that compiles is echoed. Its echo compiles just if all descriptions in it can be
read, and is echoed as itself just if they all last. -/
theorem echo_echo {name source : String} (compiled : Schema.compile name source = .ok file) :
    ∃ text, echo? name source = some text ∧
      ((Schema.compile name text).isOk = true ↔ ∀ d ∈ file.shown, Readable d) ∧
      (echo? name text = some text ↔ ∀ d ∈ file.shown, Lasting d) := by
  obtain ⟨sound, rfl⟩ := sound_of_compile compiled
  obtain ⟨wire, made, converts⟩ := Wire.exists_ofSchema sound
  obtain ⟨again, madeAgain, convertsAgain⟩ := Wire.exists_ofSchema sound.reread
  obtain ⟨text, written, reads⟩ := exists_text sound converts
  -- The echo compiles to nothing but the file that it says.
  have outcome := @compile_eq_ok_iff file sound text reads
  refine ⟨text, (echo?_of_compile compiled made).trans written, ?_, ?_⟩
  · constructor
    · intro success
      obtain ⟨other, recompiled⟩ := Outcome.exists_of_isOk success
      exact (outcome.1 recompiled).1
    · intro readable
      rw [outcome.2 ⟨readable, rfl⟩]
      rfl
  · constructor
    · intro echoed
      obtain ⟨other, recompiled⟩ := exists_of_echo? echoed
      obtain ⟨readable, rfl⟩ := outcome.1 recompiled
      rw [echo?_of_compile recompiled madeAgain] at echoed
      exact (fileText?_eq_some_iff sound readable converts convertsAgain written).1 echoed
    · intro lasting
      have readable := fun d shown => (lasting d shown).1
      rw [echo?_of_compile (outcome.2 ⟨readable, rfl⟩) madeAgain]
      exact (fileText?_eq_some_iff sound readable converts convertsAgain written).2 lasting

def quotingText : String :=
  "\"\"\"
  Says \\\"\"\"
    twice

  to me.
  \"\"\" type Query @scaled(by: 0.1234567) \x7b \"x\" a(\" \" n: Int = -1): Int \x7d
  \"date\" scalar Date"

theorem echo_echo_quoting :
    ∃ file, Schema.compile "quoting" quotingText = .ok file ∧
      ∃ text, echo? "quoting" quotingText = some text ∧
        (Schema.compile "quoting" text).isOk = true ∧ echo? "quoting" text = some text := by
  have found : (Schema.compile "quoting" quotingText).toOption.map Schema.File.shown =
      some [("", some "Says \"\"\"\n  twice\n\nto me."), (indent, some "x"),
        ("", some "date")] := by
    decide +kernel
  cases compiled : Schema.compile "quoting" quotingText with
  | error abort =>
    rw [compiled] at found
    cases found
  | ok file =>
    rw [compiled] at found
    have lasting : ∀ d ∈ file.shown, Lasting d := by
      rw [Option.some.inj found]
      decide +kernel
    obtain ⟨text, echoed, compiles, repeats⟩ := echo_echo compiled
    exact ⟨file, rfl, text, echoed, compiles.2 fun d shown => (lasting d shown).1,
      repeats.2 lasting⟩

/-- The echo of an object with a description between the lines of its quotes. -/
def describedEcho (lines : String) : String :=
  "schema \x7b\n    query: Query\n\x7d\n\n\"\"\"\n" ++ lines ++
    "\"\"\"\ntype Query \x7b\n    a: Int\n\x7d\n"

/-- Of a blank description, only the quotes are echoed, and then nothing. A short one is echoed as
a text that does not compile. -/
theorem echo_blank_short :
    (echo? "a" "\" \" type Query \x7b a: Int \x7d" = some (describedEcho "") ∧
      echo? "a" (describedEcho "") ≠ some (describedEcho "")) ∧
    echo? "a" "\"abc\" type Query \x7b a: Int \x7d" = some (describedEcho "abc\n") ∧
      Schema.compile "a" (describedEcho "abc\n") =
        .error (.crash (.blockString .tooShort)) := by
  refine ⟨⟨?_, ?_⟩, ?_, Outcome.eq_error_of_error? ?_⟩ <;> decide +kernel

end SdlCompiler.Echo
