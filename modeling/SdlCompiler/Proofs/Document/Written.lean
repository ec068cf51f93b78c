import SdlCompiler.Proofs.Definition
import SdlCompiler.Proofs.Document.Rules
import SdlCompiler.Proofs.Schema.Parts
import SdlCompiler.Proofs.Text.BlockString

/-!
# Documents as they can be written

What the grammar lets a document hold: names are names, strings have no character that cannot be
written, types have at most fifteen lists and no two marks for non-null in a row, integers are
written in one way, and no variable occurs. Every document that is read from a text is of this kind.

The predicates are over the way types, values and references are given, so that they apply to
resolved definitions as well.
-/

namespace SdlCompiler

open Document (IsName IsBasic)

variable {ι φ ρ τ ν ℓ : Type}

/-! ## Values and types -/

/-- The names that stand for a value of their own, and so for no symbol. -/
def reserved : List String :=
  ["true", "false", "null"]

/-- A value that can be written, as far as its floats can be. -/
inductive Value.Written (F : φ → Prop) : Value ι φ → Prop
  | int (literal : ι) : Written F (.int literal)
  | float {literal : φ} (finite : F literal) : Written F (.float literal)
  | string {text : String} (basic : IsBasic text.toList) : Written F (.string text)
  | boolean (value : Bool) : Written F (.boolean value)
  | null : Written F .null
  | enum {symbol : String} (name : IsName symbol) (free : symbol ∉ reserved) :
      Written F (.enum symbol)
  | list {items : List (Value ι φ)} (all : ∀ item ∈ items, Written F item) :
      Written F (.list items)
  | object {fields : List (String × Value ι φ)} (names : ∀ field ∈ fields, IsName field.1)
      (all : ∀ field ∈ fields, Written F field.2) : Written F (.object fields)

theorem Value.Written.variableNames {F : φ → Prop} {v : Value ι φ} (written : v.Written F) :
    v.variableNames = [] := by
  induction written with
  | int | float | string | boolean | null | enum => rfl
  | list _ ih =>
    rw [Value.variableNames, Value.itemVariableNames_eq]
    exact List.flatMap_eq_nil_iff.2 ih
  | object _ _ ih =>
    rw [Value.variableNames, Value.fieldVariableNames_eq]
    exact List.flatMap_eq_nil_iff.2 ih

namespace Document.TypeExpr

/-- The number of lists around the name. -/
def depth : TypeExpr → Nat
  | named _ => 0
  | list element => element.depth + 1
  | nonNull type => type.depth

structure Written (type : TypeExpr) : Prop where
  name : IsName type.innermost
  depth : type.depth ≤ 15
  nonNullOnce : type.NonNullOnce

end Document.TypeExpr

/-! ## Definitions -/

structure Directive.Written (V : ν → Prop) (d : Directive ν) : Prop where
  name : IsName d.name
  arguments : ∀ a ∈ d.arguments, IsName a.1 ∧ V a.2

structure InputValue.Written (T : τ → Prop) (V : ν → Prop) (v : InputValue τ ν) : Prop where
  name : IsName v.name
  type : T v.type
  default : ∀ x ∈ v.default, V x
  directives : ∀ d ∈ v.directives, d.Written V

structure Field.Written (T : τ → Prop) (V : ν → Prop) (f : Field τ ν) : Prop where
  name : IsName f.name
  arguments : ∀ a ∈ f.arguments, a.Written T V
  type : T f.type
  directives : ∀ d ∈ f.directives, d.Written V

structure Scalar.Written (V : ν → Prop) (s : Scalar ν) : Prop where
  name : IsName s.name
  directives : ∀ d ∈ s.directives, d.Written V

structure Composite.Written (R : ρ → Prop) (T : τ → Prop) (V : ν → Prop)
    (c : Composite ρ τ ν) : Prop where
  name : IsName c.name
  implements : ∀ r ∈ c.implements, R r
  directives : ∀ d ∈ c.directives, d.Written V
  fields : ∀ f ∈ c.fields, f.Written T V

structure Union.Written (R : ρ → Prop) (V : ν → Prop) (u : Union ρ ν) : Prop where
  name : IsName u.name
  directives : ∀ d ∈ u.directives, d.Written V
  members : ∀ r ∈ u.members, R r

structure EnumValue.Written (V : ν → Prop) (v : EnumValue ν) : Prop where
  name : IsName v.name
  free : v.name ∉ reserved
  directives : ∀ d ∈ v.directives, d.Written V

structure Enum.Written (V : ν → Prop) (e : Enum ν) : Prop where
  name : IsName e.name
  directives : ∀ d ∈ e.directives, d.Written V
  values : ∀ v ∈ e.values, v.Written V

structure InputObject.Written (T : τ → Prop) (V : ν → Prop) (i : InputObject τ ν) : Prop where
  name : IsName i.name
  directives : ∀ d ∈ i.directives, d.Written V
  fields : ∀ v ∈ i.fields, v.Written T V

structure DirectiveDefinition.Written (T : τ → Prop) (V : ν → Prop) (L : ℓ → Prop)
    (d : DirectiveDefinition τ ν ℓ) : Prop where
  name : IsName d.name
  arguments : ∀ a ∈ d.arguments, a.Written T V
  nonempty : d.locations ≠ []
  locations : ∀ l ∈ d.locations, L l

/-! ## Values and types of definitions -/

section

variable {T : τ → Prop} {V : ν → Prop}

theorem Directive.Written.values {ds : List (Directive ν)} (written : ∀ d ∈ ds, d.Written V) :
    ∀ x ∈ ds.flatMap Directive.values, V x :=
  List.forall_mem_flatMap.2 fun d member =>
    List.forall_mem_map.2 fun a given => ((written d member).arguments a given).2

theorem InputValue.Written.values {v : InputValue τ ν} (written : v.Written T V) :
    ∀ x ∈ v.values, V x :=
  List.forall_mem_append.2 ⟨fun x member => written.default x (Option.mem_toList.1 member),
    Directive.Written.values written.directives⟩

theorem Field.Written.values {f : Field τ ν} (written : f.Written T V) : ∀ x ∈ f.values, V x :=
  List.forall_mem_append.2 ⟨Directive.Written.values written.directives,
    List.forall_mem_flatMap.2 fun a member => (written.arguments a member).values⟩

theorem Field.Written.types {f : Field τ ν} (written : f.Written T V) : ∀ t ∈ f.types, T t :=
  List.forall_mem_cons.2 ⟨written.type,
    List.forall_mem_map.2 fun a member => (written.arguments a member).type⟩

end

/-! ## Definitions with parts replaced -/

section

variable {ι' φ' ρ' τ' ν' ℓ' : Type} {F : φ → Prop} {F' : φ' → Prop} {R : ρ → Prop} {R' : ρ' → Prop}
  {T : τ → Prop} {T' : τ' → Prop} {V : ν → Prop} {V' : ν' → Prop} {L : ℓ → Prop} {L' : ℓ' → Prop}
  {int : ι → ι'} {float : φ → φ'} {text : Option String → Option String} {reference : ρ → ρ'}
  {type : τ → τ'} {value : ν → ν'} {place : ℓ → ℓ'}

theorem Value.Written.map {v : Value ι φ} (written : v.Written F)
    (floats : ∀ x, F x → F' (float x)) : (v.map int float).Written F' := by
  induction written with
  | int literal => exact .int _
  | float finite => exact .float (floats _ finite)
  | string basic => exact .string basic
  | boolean value => exact .boolean value
  | null => exact .null
  | enum isName free => exact .enum isName free
  | list _ ih =>
    rw [Value.map_list]
    exact .list (List.forall_mem_map.2 ih)
  | object names _ ih =>
    rw [Value.map_object]
    exact .object (List.forall_mem_map.2 names) (List.forall_mem_map.2 ih)

theorem Directive.Written.map {d : Directive ν} (written : d.Written V)
    (values : ∀ x, V x → V' (value x)) : (d.map value).Written V' :=
  ⟨written.name, List.forall_mem_map.2 fun a member =>
    ⟨(written.arguments a member).1, values _ (written.arguments a member).2⟩⟩

theorem Directive.Written.mapAll {ds : List (Directive ν)} (written : ∀ d ∈ ds, d.Written V)
    (values : ∀ x, V x → V' (value x)) : ∀ d ∈ ds.map (Directive.map value), d.Written V' :=
  List.forall_mem_map.2 fun d member => (written d member).map values

theorem InputValue.Written.map {v : InputValue τ ν} (written : v.Written T V)
    (types : ∀ t, T t → T' (type t)) (values : ∀ x, V x → V' (value x)) :
    (v.map text type value).Written T' V' := by
  refine ⟨written.name, types _ written.type, fun y isDefault => ?_,
    Directive.Written.mapAll written.directives values⟩
  obtain ⟨x, isSome, rfl⟩ := Option.map_eq_some_iff.1 isDefault
  exact values x (written.default x isSome)

theorem Field.Written.map {f : Field τ ν} (written : f.Written T V)
    (types : ∀ t, T t → T' (type t)) (values : ∀ x, V x → V' (value x)) :
    (f.map text type value).Written T' V' :=
  ⟨written.name,
    List.forall_mem_map.2 fun a member => (written.arguments a member).map types values,
    types _ written.type, Directive.Written.mapAll written.directives values⟩

theorem Scalar.Written.map {s : Scalar ν} (written : s.Written V)
    (values : ∀ x, V x → V' (value x)) : (s.map text value).Written V' :=
  ⟨written.name, Directive.Written.mapAll written.directives values⟩

theorem Composite.Written.map {c : Composite ρ τ ν} (written : c.Written R T V)
    (references : ∀ r, R r → R' (reference r)) (types : ∀ t, T t → T' (type t))
    (values : ∀ x, V x → V' (value x)) : (c.map text reference type value).Written R' T' V' :=
  ⟨written.name, List.forall_mem_map.2 fun r member => references r (written.implements r member),
    Directive.Written.mapAll written.directives values,
    List.forall_mem_map.2 fun f member => (written.fields f member).map types values⟩

theorem Union.Written.map {u : Union ρ ν} (written : u.Written R V)
    (references : ∀ r, R r → R' (reference r)) (values : ∀ x, V x → V' (value x)) :
    (u.map text reference value).Written R' V' :=
  ⟨written.name, Directive.Written.mapAll written.directives values,
    List.forall_mem_map.2 fun r member => references r (written.members r member)⟩

theorem Enum.Written.map {e : Enum ν} (written : e.Written V)
    (values : ∀ x, V x → V' (value x)) : (e.map text value).Written V' :=
  ⟨written.name, Directive.Written.mapAll written.directives values,
    List.forall_mem_map.2 fun v member =>
      ⟨(written.values v member).name, (written.values v member).free,
        Directive.Written.mapAll (written.values v member).directives values⟩⟩

theorem InputObject.Written.map {i : InputObject τ ν} (written : i.Written T V)
    (types : ∀ t, T t → T' (type t)) (values : ∀ x, V x → V' (value x)) :
    (i.map text type value).Written T' V' :=
  ⟨written.name, Directive.Written.mapAll written.directives values,
    List.forall_mem_map.2 fun v member => (written.fields v member).map types values⟩

theorem DirectiveDefinition.Written.map {d : DirectiveDefinition τ ν ℓ} (written : d.Written T V L)
    (types : ∀ t, T t → T' (type t)) (values : ∀ x, V x → V' (value x))
    (places : ∀ l, L l → L' (place l)) : (d.map text type value place).Written T' V' L' :=
  ⟨written.name,
    List.forall_mem_map.2 fun a member => (written.arguments a member).map types values,
    by simpa [DirectiveDefinition.map] using written.nonempty,
    List.forall_mem_map.2 fun l member => places l (written.locations l member)⟩

end

namespace Document

/-- A value of a document: of its floats only the text is known, and its integers are written as
numbers of 64 bits are. -/
structure Value.Spelled (v : Value) : Prop where
  written : v.Written fun _ => True
  canonical : ∀ text ∈ v.ints, ∃ n : Int64, text = toString n.toInt

theorem Value.spelled_of_ints {v : Value} (written : v.Written fun _ => True) (none : v.ints = []) :
    v.Spelled :=
  ⟨written, by simp [none]⟩

theorem Value.spelled_list {items : List Value} (all : ∀ item ∈ items, Value.Spelled item) :
    Value.Spelled (.list items) := by
  refine ⟨.list fun item member => (all item member).written, ?_⟩
  rw [SdlCompiler.Value.ints, SdlCompiler.Value.itemInts_eq, List.forall_mem_flatMap]
  exact fun item member => (all item member).canonical

theorem Value.spelled_object {fields : List (String × Value)}
    (all : ∀ field ∈ fields, IsName field.1 ∧ Value.Spelled field.2) :
    Value.Spelled (.object fields) := by
  refine ⟨.object (fun field member => (all field member).1)
    fun field member => (all field member).2.written, ?_⟩
  rw [SdlCompiler.Value.ints, SdlCompiler.Value.fieldInts_eq, List.forall_mem_flatMap]
  exact fun field member => (all field member).2.canonical

/-- A definition that the grammar can give. -/
def Definition.Written : Definition → Prop
  | .schema block => ∀ d ∈ block.directives, d.Written Value.Spelled
  | .scalar d => d.Written Value.Spelled
  | .object d | .interface d => d.Written IsName TypeExpr.Written Value.Spelled
  | .union d => d.Written IsName Value.Spelled
  | .enum d => d.Written Value.Spelled
  | .input d => d.Written TypeExpr.Written Value.Spelled
  | .directive d => d.Written TypeExpr.Written Value.Spelled
      fun place => (Location.ofName? place).isSome
  | .other _ _ => True

theorem Definition.Written.types {d : Definition} (written : d.Written) :
    ∀ t ∈ d.types, t.Written := by
  cases d with
  | object d | interface d =>
    exact List.forall_mem_flatMap.2 fun f member => (written.fields f member).types
  | input d => exact List.forall_mem_map.2 fun v member => (written.fields v member).type
  | directive d => exact List.forall_mem_map.2 fun a member => (written.arguments a member).type
  | schema | scalar | union | enum | other => exact fun _ member => absurd member List.not_mem_nil

theorem Definition.Written.values {d : Definition} (written : d.Written) :
    ∀ v ∈ d.values, Value.Spelled v := by
  cases d with
  | schema block => exact Directive.Written.values written
  | scalar d | union d => exact Directive.Written.values written.directives
  | object d | interface d =>
    exact List.forall_mem_append.2 ⟨Directive.Written.values written.directives,
      List.forall_mem_flatMap.2 fun f member => (written.fields f member).values⟩
  | enum d =>
    have symbols := Enum.Written.values written
    exact List.forall_mem_append.2 ⟨Directive.Written.values written.directives,
      List.forall_mem_flatMap.2 fun v member =>
        Directive.Written.values (symbols v member).directives⟩
  | input d =>
    exact List.forall_mem_append.2 ⟨Directive.Written.values written.directives,
      List.forall_mem_flatMap.2 fun v member => (written.fields v member).values⟩
  | directive d =>
    exact List.forall_mem_flatMap.2 fun a member => (written.arguments a member).values
  | other => exact fun _ member => absurd member List.not_mem_nil

theorem Definition.Written.locations {d : Definition} (written : d.Written) :
    ∀ place ∈ d.locations, (Location.ofName? place).isSome := by
  cases d with
  | directive d => exact DirectiveDefinition.Written.locations written
  | schema | scalar | object | interface | union | enum | input | other =>
    exact fun _ member => absurd member List.not_mem_nil

/-! ## Tokens of a text -/

theorem isHexDigit_basic {c : Char} (hex : Token.isHexDigit c = true) : c.toNat ≤ 0xFFFF := by
  simp only [Token.isHexDigit, Numeric.isDigit, Bool.or_eq_true, Bool.and_eq_true,
    decide_eq_true_eq] at hex
  have bound : c ≤ '9' ∨ c ≤ 'f' ∨ c ≤ 'F' := by tauto
  rcases bound with digit | lower | upper
  · exact Nat.le_trans (show c.toNat ≤ '9'.toNat from digit) (by decide)
  · exact Nat.le_trans (show c.toNat ≤ 'f'.toNat from lower) (by decide)
  · exact Nat.le_trans (show c.toNat ≤ 'F'.toNat from upper) (by decide)

theorem isEscape_basic {c : Char} (escape : Token.isEscape c = true) : c.toNat ≤ 0xFFFF := by
  simp only [Token.isEscape, Bool.or_eq_true, beq_iff_eq] at escape
  rcases escape with ((((((rfl | rfl) | rfl) | rfl) | rfl) | rfl) | rfl) | rfl <;> decide

theorem isLineChar_basic {c : Char} (line : Token.isLineChar c = true) : c.toNat ≤ 0xFFFF := by
  simp only [Token.isLineChar, Bool.or_eq_true, beq_iff_eq, Bool.and_eq_true,
    decide_eq_true_eq] at line
  rcases line with rfl | bounds
  · decide
  · exact bounds.2

theorem isBasic_cons {c : Char} {text : List Char} (basic : c.toNat ≤ 0xFFFF)
    (rest : IsBasic text) : IsBasic (c :: text) :=
  List.forall_mem_cons.2 ⟨basic, rest⟩

theorem quotedBody_basic {text raw rest : List Char}
    (found : Token.quotedBody text = some (raw, rest)) : IsBasic raw := by
  fun_induction Token.quotedBody text generalizing raw rest with
  | case1 => cases found
  | case2 rest =>
    cases found
    exact fun c member => absurd member List.not_mem_nil
  | case3 a b c d rest hex ih =>
    obtain ⟨⟨inner, _⟩, foundRest, same⟩ := Option.map_eq_some_iff.1 found
    cases same
    simp only [Bool.and_eq_true] at hex
    obtain ⟨⟨⟨isA, isB⟩, isC⟩, isD⟩ := hex
    exact isBasic_cons (by decide) (isBasic_cons (by decide) (isBasic_cons (isHexDigit_basic isA)
      (isBasic_cons (isHexDigit_basic isB) (isBasic_cons (isHexDigit_basic isC)
        (isBasic_cons (isHexDigit_basic isD) (ih foundRest))))))
  | case5 c rest _ escape ih =>
    obtain ⟨⟨inner, _⟩, foundRest, same⟩ := Option.map_eq_some_iff.1 found
    cases same
    exact isBasic_cons (by decide) (isBasic_cons (isEscape_basic escape) (ih foundRest))
  | case7 c rest _ _ _ line ih =>
    obtain ⟨⟨inner, _⟩, foundRest, same⟩ := Option.map_eq_some_iff.1 found
    cases same
    exact isBasic_cons (isLineChar_basic (Bool.and_eq_true_iff.1 line).1) (ih foundRest)
  | case4 | case6 | case8 => cases found

theorem blockBody_basic {text raw rest : List Char}
    (found : Token.blockBody text = .ok (raw, rest)) : IsBasic raw := by
  fun_induction Token.blockBody text generalizing raw rest with
  | case1 => cases found
  | case2 rest =>
    cases found
    exact fun c member => absurd member List.not_mem_nil
  | case3 rest ih =>
    obtain ⟨⟨inner, _⟩, foundRest, same⟩ := Outcome.map_eq_ok.1 found
    cases same
    exact isBasic_cons (by decide) (isBasic_cons (by decide) (isBasic_cons (by decide)
      (isBasic_cons (by decide) (ih foundRest))))
  | case4 c rest _ _ line ih =>
    obtain ⟨⟨inner, _⟩, foundRest, same⟩ := Outcome.map_eq_ok.1 found
    cases same
    refine isBasic_cons ?_ (ih foundRest)
    simp only [Token.isBlockChar, Token.isLineEnd, Bool.or_eq_true, beq_iff_eq] at line
    rcases line with isLine | rfl | rfl
    · exact isLineChar_basic isLine
    · decide
    · decide
  | case5 => cases found

theorem blockBody_failed {text : List Char} {token : Token}
    (failed : Token.blockBody text = .error token) : token.Lexed := by
  fun_induction Token.blockBody text with
  | case1 =>
    cases failed
    trivial
  | case2 => cases failed
  | case3 rest ih | case4 c rest _ _ _ ih =>
    cases inner : Token.blockBody rest with
    | ok pair =>
      rw [inner] at failed
      cases failed
    | error other =>
      rw [inner] at failed
      cases failed
      exact ih inner
  | case5 =>
    cases failed
    trivial

theorem string_lexed (text : List Char) : (Token.string text).1.Lexed := by
  unfold Token.string
  split
  · split
    · next found => exact blockBody_basic found
    · next failed => exact blockBody_failed failed
  · split
    · next found => exact quotedBody_basic found
    · trivial

theorem unsigned_lexed (sign text : List Char) : (Token.unsigned sign text).1.Lexed := by
  unfold Token.unsigned
  dsimp only
  split
  · trivial
  split
  · trivial
  split
  · trivial
  split
  · trivial
  · trivial

theorem next_lexed (c : Char) (rest : List Char) : (Token.next c rest).1.Lexed := by
  unfold Token.next
  split
  · trivial
  split
  · next starts =>
    refine ⟨c, rest.takeWhile Token.isNameChar, String.toList_ofList, starts, ?_⟩
    exact List.all_takeWhile
  split
  · unfold Token.number
    split
    · exact unsigned_lexed _ _
    · exact unsigned_lexed _ _
  split
  · exact string_lexed rest
  · trivial

/-- The tokens of a text are as tokens are cut. -/
theorem lex_lexed (text : List Char) : ∀ token ∈ Token.lex text, token.Lexed := by
  fun_induction Token.lex text with
  | case1 => exact fun _ member => absurd member List.not_mem_nil
  | case2 c rest ignored ih => exact ih
  | case3 c rest _ comment ih => exact ih
  | case4 c rest _ _ ih => exact List.forall_mem_cons.2 ⟨next_lexed c rest, ih⟩

/-! ## Locations

The grammar has a list of locations of its own. It is the one of schemas: both know the same words,
and mean the same locations by them. -/

namespace Site

/-- The location of a schema that the grammar means. -/
def location : Site → Location
  | query => .executable .query
  | mutation => .executable .mutation
  | subscription => .executable .subscription
  | field => .executable .field
  | fragmentDefinition => .executable .fragmentDefinition
  | fragmentSpread => .executable .fragmentSpread
  | inlineFragment => .executable .inlineFragment
  | variableDefinition => .executable .variableDefinition
  | schema => .typeSystem .schema
  | scalar => .typeSystem .scalar
  | object => .typeSystem .object
  | fieldDefinition => .typeSystem .fieldDefinition
  | argumentDefinition => .typeSystem .argumentDefinition
  | interface => .typeSystem .interface
  | union => .typeSystem .union
  | enum => .typeSystem .enum
  | enumValue => .typeSystem .enumValue
  | inputObject => .typeSystem .inputObject
  | inputFieldDefinition => .typeSystem .inputFieldDefinition

theorem name_of_ofWord? {word : String} {site : Site} (found : ofWord? word = some site) :
    site.name = word := by
  unfold ofWord? at found
  split at found <;> cases found <;> rfl

theorem ofName?_name (site : Site) : Location.ofName? site.name = some site.location := by
  cases site <;> decide

theorem exists_ofWord?_name (place : Location) : ∃ site, ofWord? place.name = some site := by
  cases place with
  | executable place => cases place <;> exact ⟨_, rfl⟩
  | typeSystem place => cases place <;> exact ⟨_, rfl⟩

theorem location_ofWord? (word : String) : (ofWord? word).map location = Location.ofName? word := by
  cases found : ofWord? word with
  | some site =>
    rw [← name_of_ofWord? found, ofName?_name]
    rfl
  | none =>
    cases known : Location.ofName? word with
    | none => rfl
    | some place =>
      obtain ⟨site, isSite⟩ := exists_ofWord?_name place
      have named : place.name = word := by simpa using List.find?_some known
      rw [named, found] at isSite
      cases isSite

end Site

/-! ## What the grammar gives -/

namespace Grammar

open Rule

theorem integer_spelled {text : String} {v : Value} (success : integer text = .ok v) :
    v.Spelled := by
  unfold integer at success
  split at success
  · next n _ =>
    cases success
    exact ⟨.int _, List.forall_mem_singleton.2 ⟨n, rfl⟩⟩
  · cases success

theorem float_spelled (text : String) : (float text).Spelled := by
  unfold float
  split
  · exact Value.spelled_of_ints (.float trivial) rfl
  · exact Value.spelled_of_ints (.float trivial) rfl

theorem quoted_spelled {raw : List Char} {v : Value} (basic : IsBasic raw)
    (success : (quoted raw).map SdlCompiler.Value.string = .ok v) : v.Spelled := by
  obtain ⟨text, decoded, rfl⟩ := Outcome.map_eq_ok.1 success
  unfold quoted at decoded
  split at decoded
  · next chars found =>
    cases decoded
    refine Value.spelled_of_ints (.string ?_) rfl
    rw [String.toList_ofList]
    exact basic.decode found
  · cases decoded

theorem block_spelled {raw : List Char} {v : Value} (basic : IsBasic raw)
    (success : ((block raw).map SdlCompiler.Value.string).mapError Abort.crash =
      (.ok v : Except (Abort SchemaError) Value)) : v.Spelled := by
  obtain ⟨text, valued, rfl⟩ := Outcome.map_eq_ok.1 (Outcome.mapError_eq_ok.1 success)
  unfold block at valued
  split at valued
  · next chars found =>
    cases valued
    refine Value.spelled_of_ints (.string ?_) rfl
    rw [String.toList_ofList]
    intro c member
    rcases Text.BlockString.mem_of_mem_value found member with rfl | inRaw
    · decide
    · exact basic c inRaw
  · cases valued

theorem integer_failed {text : String} (failed : integer text = .error (.crash .integerToken)) :
    (Token.int text).IsLarge := by
  unfold integer at failed
  split at failed
  · cases failed
  · next large => exact ⟨text, rfl, large⟩

theorem quoted_failed {α : Type} {raw : List Char} {f : String → α} :
    (quoted raw).map f ≠ .error (.crash .integerToken) := by
  rw [Ne, Outcome.map_eq_error]
  unfold quoted
  split <;> nofun

theorem block_failed {raw : List Char} :
    ((block raw).map SdlCompiler.Value.string).mapError Abort.crash ≠
      (.error (.crash .integerToken) : Except (Abort SchemaError) Value) := by
  unfold block
  split <;> nofun

theorem integer_refused {text : String} {e : SchemaError}
    (refused : integer text = .error (.error e)) : e = .malformed := by
  unfold integer at refused
  split at refused <;> cases refused

theorem quoted_refused {α : Type} {raw : List Char} {f : String → α} {e : SchemaError}
    (refused : (quoted raw).map f = .error (.error e)) : e = .malformed := by
  rw [Outcome.map_eq_error, quoted] at refused
  split at refused <;> cases refused
  rfl

theorem block_refused {raw : List Char} {e : SchemaError}
    (refused : ((block raw).map SdlCompiler.Value.string).mapError Abort.crash =
      (.error (.error e) : Except (Abort SchemaError) Value)) : e = .malformed := by
  unfold block at refused
  split at refused <;> cases refused

theorem yields_valueWithin (depth : Nat) : Yields (valueWithin depth) Value.Spelled := by
  induction depth with
  | zero => exact yields_refuse
  | succ depth ih =>
    refine .ofToken fun token lexed => ?_
    -- Only the first case is about integers; the others do not matter to what was met.
    split
    · exact yields_settle (fun v success => integer_spelled success) integer_failed
        fun _ => integer_refused
    all_goals refine Yields.having ?_ _
    · exact .pure (float_spelled _)
    · exact yields_settle (fun v success => quoted_spelled lexed success) quoted_failed
        fun _ => quoted_refused
    · exact yields_settle (fun v success => block_spelled lexed success) block_failed
        fun _ => block_refused
    · exact .pure (Value.spelled_of_ints (.boolean true) rfl)
    · exact .pure (Value.spelled_of_ints (.boolean false) rfl)
    · exact .pure (Value.spelled_of_ints .null rfl)
    · next symbol notTrue notFalse notNull =>
      refine .pure (Value.spelled_of_ints (.enum lexed ?_) rfl)
      simp only [reserved, List.mem_cons, List.not_mem_nil, or_false, not_or]
      exact ⟨notTrue, notFalse, notNull⟩
    · exact (yields_itemsUpTo ih).bind fun items all => .pure (Value.spelled_list all)
    · have field : Yields (do
          let key ← name
          expect (.punctuator ':')
          return (key, ← valueWithin depth)) fun field => IsName field.1 ∧ Value.Spelled field.2 :=
        yields_name.bind fun key isName => (yields_expect _).bind fun _ _ =>
          ih.bind fun v spelled => .pure ⟨isName, spelled⟩
      exact (yields_itemsUpTo field).bind fun fields all => .pure (Value.spelled_object all)
    · exact yields_name.bind fun _ _ => yields_refuse
    · exact yields_malformed

theorem yields_value : Yields value Value.Spelled :=
  yields_limit.bind fun limit _ => yields_valueWithin limit

/-! ### Directives and types -/

theorem yields_argument : Yields argument fun a => IsName a.1 ∧ Value.Spelled a.2 :=
  yields_name.bind fun _ isName => (yields_expect _).bind fun _ _ =>
    yields_value.bind fun _ spelled => .pure ⟨isName, spelled⟩

theorem yields_directive : Yields directive (·.Written Value.Spelled) := by
  refine yields_name.bind fun text isName => (yields_accept _).bind fun _ _ => ?_
  refine .ite (fun _ => ?_) fun _ => .pure ⟨isName, by simp⟩
  exact (yields_itemsUpTo yields_argument).bind fun _ all => .pure ⟨isName, all⟩

theorem yields_directives :
    Yields directives fun ds => ∀ d ∈ ds, d.Written Value.Spelled :=
  yields_eachAfter yields_directive

/-- Marks around a type leave its name, add a list for each bracket, and make nothing non-null
twice. -/
theorem foldl_wrap (marks : List Token) (type : TypeExpr) (once : type.NonNullOnce) :
    (marks.foldl wrap type).innermost = type.innermost ∧
      (marks.foldl wrap type).depth = type.depth + marks.count (.punctuator ']') ∧
      (marks.foldl wrap type).NonNullOnce := by
  -- The type grows from the inside, so what is known of it is carried along.
  induction marks generalizing type with
  | nil => exact ⟨rfl, rfl, once⟩
  | cons mark marks ih =>
    have one : (wrap type mark).innermost = type.innermost ∧
        (wrap type mark).depth = type.depth + (if mark = .punctuator ']' then 1 else 0) ∧
        (wrap type mark).NonNullOnce := by
      unfold wrap
      split
      · exact ⟨rfl, rfl, once⟩
      · cases type with
        | named | list | nonNull => exact ⟨rfl, rfl, once⟩
    obtain ⟨sameName, deeper, onceMore⟩ := ih (wrap type mark) one.2.2
    refine ⟨sameName.trans one.1, ?_, onceMore⟩
    rw [List.foldl_cons, deeper, one.2.1, List.count_cons]
    simp only [beq_iff_eq]
    omega

theorem takes_dropWhile {p : Token → Bool} (proper : ∀ token, p token = true → isProper token = true)
    (tokens : List Token) : Takes tokens (tokens.dropWhile p) :=
  ⟨tokens.takeWhile p, List.takeWhile_append_dropWhile.symm, fun token member =>
    proper token (List.mem_takeWhile_imp member)⟩

theorem isProper_of_isTypeMark (token : Token) (mark : isTypeMark token = true) :
    isProper token = true := by
  simp only [isTypeMark, Bool.or_eq_true, decide_eq_true_eq] at mark
  rcases mark with rfl | rfl <;> rfl

theorem yields_typeMarks : Yields typeMarks fun marks => marks.count (.punctuator ']') ≤ 15 := by
  refine yields_of_comesTo fun cursor lexed => ?_
  unfold typeMarks
  dsimp only
  split
  · next few =>
    have takes := takes_dropWhile isProper_of_isTypeMark cursor.tokens
    exact ⟨few, takes, takes.lexed lexed lexed.defect⟩
  · split
    · rintro ⟨⟩
    · split
      · rintro ⟨⟩
      · rfl
    · rfl

theorem yields_openingBrackets : Yields openingBrackets fun _ => True := by
  refine yields_of_comesTo fun cursor lexed => ?_
  have takes := takes_dropWhile (p := (· = .punctuator '[')) (by simp [isProper]) cursor.tokens
  exact ⟨trivial, takes, takes.lexed lexed lexed.defect⟩

theorem yields_typeExpr : Yields typeExpr TypeExpr.Written := by
  refine yields_openingBrackets.bind fun _ _ => yields_name.bind fun text isName =>
    yields_typeMarks.bind fun marks few => ?_
  obtain ⟨sameName, depth, once⟩ := foldl_wrap marks (.named text) trivial
  refine .pure ⟨sameName ▸ isName, ?_, once⟩
  rw [depth]
  simpa [TypeExpr.depth] using few

/-! ### Parts of definitions -/

theorem yields_description : Yields description fun _ => True := by
  have settled : ∀ raw, Yields (settle ((quoted raw).map some)) fun _ => True :=
    fun raw => yields_settle (fun _ _ => trivial) quoted_failed fun _ => quoted_refused
  refine yields_of_comesTo fun cursor lexed => ?_
  unfold description
  split
  · next raw rest tokens =>
    have taken : Takes cursor.tokens rest := tokens ▸ .one rfl rest
    have lexedRest : Cursor.Lexed { cursor with tokens := rest } := taken.lexed lexed lexed.defect
    exact ((settled raw).comesTo lexedRest).after taken
  · next raw rest tokens =>
    have taken : Takes cursor.tokens rest := tokens ▸ .one rfl rest
    split
    · exact ⟨trivial, taken, taken.lexed lexed lexed.defect⟩
    · next fault failed =>
      refine ⟨trivial, taken, taken.lexed lexed ?_⟩
      cases earlier : cursor.defect with
      | none =>
        rintro ⟨⟩
        exact block_failed (by rw [failed]; rfl)
      | some defect =>
        have free := lexed.defect
        rw [earlier] at free
        exact free
  · exact ⟨trivial, .refl _, lexed⟩

theorem yields_inputValue :
    Yields inputValue (·.Written TypeExpr.Written Value.Spelled) := by
  refine yields_description.bind fun _ _ => yields_name.bind fun _ isName => ?_
  refine (yields_expect _).bind fun _ _ => yields_typeExpr.bind fun _ typed => ?_
  -- The directives are read in the same way after a default and without one.
  have found : Yields (some <$> value) fun default => ∀ x ∈ default, Value.Spelled x :=
    yields_value.map fun v spelled => by
      rintro x ⟨⟩
      exact spelled
  have missing : Yields (pure none : Rule (Option Value)) fun default =>
      ∀ x ∈ default, Value.Spelled x := .pure (by rintro x ⟨⟩)
  refine (yields_accept _).bind fun _ _ => .ite (fun _ => found.bind fun _ valued => ?_)
    fun _ => missing.bind fun _ valued => ?_
  · exact yields_directives.bind fun _ applied => .pure ⟨isName, typed, valued, applied⟩
  · exact yields_directives.bind fun _ applied => .pure ⟨isName, typed, valued, applied⟩

theorem yields_arguments :
    Yields arguments fun vs => ∀ v ∈ vs, v.Written TypeExpr.Written Value.Spelled :=
  (yields_accept _).bind fun _ _ => .ite (fun _ => yields_someItemsUpTo yields_inputValue)
    fun _ => .pure (by simp)

theorem yields_field : Yields field (·.Written TypeExpr.Written Value.Spelled) := by
  refine yields_description.bind fun _ _ => yields_name.bind fun _ isName => ?_
  refine yields_arguments.bind fun _ taken => (yields_expect _).bind fun _ _ => ?_
  refine yields_typeExpr.bind fun _ typed => yields_directives.bind fun _ applied => ?_
  exact .pure ⟨isName, taken, typed, applied⟩

theorem yields_enumValue : Yields enumValue (·.Written Value.Spelled) := by
  refine yields_description.bind fun _ _ => yields_name.bind fun symbol isName => ?_
  have refused : Yields (malformed : Rule Unit) fun _ => False := yields_malformed
  refine .ite (fun _ => refused.bind fun _ => False.elim) fun free => ?_
  refine yields_directives.bind fun _ applied => .pure ⟨isName, ?_, applied⟩
  simpa only [reserved, List.mem_cons, List.not_mem_nil, or_false] using free

theorem yields_body {α : Type} {item : Rule α} {P : α → Prop} (yields : Yields item P) :
    Yields (body item) fun items => ∀ a ∈ items, P a :=
  (yields_accept _).bind fun _ _ => .ite (fun _ => yields_someItemsUpTo yields)
    fun _ => .pure (by simp)

/-! ### Definitions -/

theorem yields_roots : Yields roots fun _ => True := by
  have operation : Yields operation fun _ => True := by
    refine yields_next.bind fun token _ => ?_
    split
    · exact .pure trivial
    · exact .pure trivial
    · exact .pure trivial
    · exact yields_malformed
  have root : Yields root fun _ => True :=
    operation.bind fun _ _ => (yields_expect _).bind fun _ _ => yields_name.bind fun _ _ =>
      .pure trivial
  exact (yields_itemsUpTo root).mono fun _ _ => trivial

theorem yields_schemaBlock :
    Yields schemaBlock fun block => ∀ d ∈ block.directives, d.Written Value.Spelled :=
  yields_directives.bind fun _ applied => (yields_expect _).bind fun _ _ =>
    yields_roots.bind fun _ _ => .pure applied

variable (description : Option String)

theorem yields_scalar : Yields (scalar description) (·.Written Value.Spelled) :=
  yields_name.bind fun _ isName => yields_directives.bind fun _ applied => .pure ⟨isName, applied⟩

theorem yields_implements : Yields implements fun names => ∀ n ∈ names, IsName n :=
  (yields_accept _).bind fun _ _ => .ite
    (fun _ => (yields_separated yields_name).mono fun _ both => both.2) fun _ => .pure (by simp)

theorem yields_composite :
    Yields (composite description) (·.Written IsName TypeExpr.Written Value.Spelled) := by
  refine yields_name.bind fun _ isName => yields_implements.bind fun _ implemented => ?_
  refine yields_directives.bind fun _ applied => (yields_body yields_field).bind fun _ all => ?_
  exact .pure ⟨isName, implemented, applied, all⟩

theorem yields_union : Yields (union description) (·.Written IsName Value.Spelled) := by
  refine yields_name.bind fun _ isName => yields_directives.bind fun _ applied => ?_
  refine (yields_accept _).bind fun _ _ => .ite (fun _ => ?_) fun _ => ?_
  · exact (yields_separated yields_name).bind fun _ named => .pure ⟨isName, applied, named.2⟩
  · have none : Yields (pure [] : Rule (List String)) fun names => ∀ n ∈ names, IsName n :=
      .pure (by simp)
    exact none.bind fun _ named => .pure ⟨isName, applied, named⟩

theorem yields_enum : Yields (enum description) (·.Written Value.Spelled) :=
  yields_name.bind fun _ isName => yields_directives.bind fun _ applied =>
    (yields_body yields_enumValue).bind fun _ all => .pure ⟨isName, applied, all⟩

theorem yields_inputObject :
    Yields (inputObject description) (·.Written TypeExpr.Written Value.Spelled) :=
  yields_name.bind fun _ isName => yields_directives.bind fun _ applied =>
    (yields_body yields_inputValue).bind fun _ all => .pure ⟨isName, applied, all⟩

theorem yields_location : Yields location fun place => (Location.ofName? place).isSome := by
  refine yields_name.bind fun word _ => ?_
  split
  · exact yields_refuse
  · next site found =>
    refine .pure ?_
    rw [Site.name_of_ofWord? found, ← Site.location_ofWord?, found]
    rfl

theorem yields_directiveDefinition :
    Yields (directiveDefinition description) (·.Written TypeExpr.Written Value.Spelled
      fun place => (Location.ofName? place).isSome) := by
  refine (yields_expect _).bind fun _ _ => yields_name.bind fun _ isName => ?_
  refine yields_arguments.bind fun _ taken => (yields_accept _).bind fun _ _ => ?_
  refine (yields_expect _).bind fun _ _ =>
    (yields_separated yields_location).bind fun _ placed => ?_
  exact .pure ⟨isName, taken, placed.1, placed.2⟩

theorem yields_typeDefinition (keyword : String) :
    Yields (typeDefinition description keyword) fun d => d.Written ∧ d.directive? = none := by
  unfold typeDefinition
  split
  · exact (yields_scalar description).map fun _ written => ⟨written, rfl⟩
  · exact (yields_composite description).map fun _ written => ⟨written, rfl⟩
  · exact (yields_composite description).map fun _ written => ⟨written, rfl⟩
  · exact (yields_union description).map fun _ written => ⟨written, rfl⟩
  · exact (yields_enum description).map fun _ written => ⟨written, rfl⟩
  · exact (yields_inputObject description).map fun _ written => ⟨written, rfl⟩
  · exact yields_malformed

theorem yields_extension : Yields extension fun d => d.Written ∧ d.directive? = none := by
  refine yields_name.bind fun keyword _ => .ite (fun _ => ?_) fun _ => ?_
  · refine yields_directives.bind fun _ _ => (yields_accept _).bind fun _ _ => .ite (fun _ => ?_)
      fun _ => .pure ⟨trivial, rfl⟩
    exact yields_roots.bind fun _ _ => .pure ⟨trivial, rfl⟩
  · refine (yields_typeDefinition none keyword).bind fun definition _ => ?_
    cases definition with
    | scalar | object | interface | union | enum | input => exact .pure ⟨trivial, rfl⟩
    | schema | directive | other => exact yields_malformed

/-- What follows the keyword of a definition. -/
theorem yields_afterKeyword {defect : Option Defect} (free : defect ≠ some .integerToken)
    (keyword : String) :
    Yields (match keyword with
      | "schema" => unkept defect (.schema <$> schemaBlock)
      | "extend" => unkept defect extension
      | "directive" => .directive <$> directiveDefinition description
      | keyword => typeDefinition description keyword) Definition.Written := by
  split
  · exact (yields_schemaBlock.map fun _ written => written).unkept free
  · exact (yields_extension.mono fun _ both => both.1).unkept free
  · exact (yields_directiveDefinition description).map fun _ written => written
  · exact (yields_typeDefinition description _).mono fun _ both => both.1

theorem yields_definition : Yields definition Definition.Written := by
  have rule := fun {defect : Option Defect} (free : defect ≠ some .integerToken) =>
    yields_description.bind fun text _ => yields_name.bind fun keyword _ =>
      yields_afterKeyword text free keyword
  exact ⟨fun lexed => (rule lexed.defect).gives lexed, fun lexed => (rule lexed.defect).fails lexed,
    fun lexed => (rule lexed.defect).refuses lexed⟩

theorem yields_document : Yields document fun document => ∀ d ∈ document, d.Written := by
  have definitions : ∀ limit, Yields (definitionsWithin limit) fun ds => ∀ d ∈ ds, d.Written := by
    intro limit
    induction limit with
    | zero => exact .pure (by simp)
    | succ limit ih =>
      refine yields_definition.bind fun first written => yields_peek.bind fun _ _ => ?_
      refine .ite (fun _ => .pure (by simpa using written)) fun _ => ih.bind fun rest others => ?_
      exact .pure (List.forall_mem_cons.2 ⟨written, others⟩)
  have refused : Yields (malformed : Rule Unit) fun _ => False := yields_malformed
  refine yields_peek.bind fun _ _ => .ite (fun _ => refused.bind fun _ => False.elim) fun _ => ?_
  exact yields_limit.bind fun limit _ => definitions limit

/-! ### Whole documents -/

theorem name_eq_ok {cursor after : Cursor} {text : String} (ran : name cursor = .ok (text, after)) :
    cursor.tokens = .name text :: after.tokens := by
  obtain ⟨token, middle, taken, named⟩ := bind_eq_ok ran
  rw [(next_eq_ok taken).1]
  cases token with
  | name other =>
    cases named
    rfl
  | punctuator | int | float | quoted | block | invalid | unfinished | crash => cases named

/-- A definition takes its keyword at least. -/
theorem definition_length {cursor after : Cursor} {d : Definition} (lexed : cursor.Lexed)
    (ran : definition cursor = .ok (d, after)) : after.tokens.length < cursor.tokens.length := by
  obtain ⟨text, middle, described, ran⟩ := bind_eq_ok ran
  obtain ⟨-, takes, lexedMiddle⟩ := yields_description.gives lexed described
  obtain ⟨keyword, later, named, ran⟩ := bind_eq_ok ran
  obtain ⟨-, -, lexedLater⟩ := yields_name.gives lexedMiddle named
  obtain ⟨-, rest, -⟩ := (yields_afterKeyword text lexed.defect keyword).gives lexedLater ran
  have count := congrArg List.length (name_eq_ok named)
  have first := takes.length_le
  have last := rest.length_le
  rw [List.length_cons] at count
  omega

/-- Nothing is left of a document whose definitions are not cut short by the limit. -/
theorem definitionsWithin_tokens {cursor after : Cursor} {ds : List Definition} {limit : Nat}
    (lexed : cursor.Lexed) (enough : cursor.tokens.length ≤ limit)
    (ran : definitionsWithin limit cursor = .ok (ds, after)) : after.tokens = [] := by
  induction limit generalizing cursor ds with
  | zero =>
    cases ran
    exact List.length_eq_zero_iff.1 (Nat.le_zero.1 enough)
  | succ limit ih =>
    obtain ⟨first, middle, defined, ran⟩ := bind_eq_ok ran
    obtain ⟨-, -, lexedMiddle⟩ := yields_definition.gives lexed defined
    have shorter := definition_length lexed defined
    obtain ⟨token, same, ⟨⟩, ran⟩ := bind_eq_ok ran
    split at ran
    · next ended =>
      cases ran
      exact List.head?_eq_none_iff.1 ended
    · obtain ⟨rest, last, later, ran⟩ := bind_eq_ok ran
      cases ran
      exact ih lexedMiddle (by omega) later

theorem document_tokens {cursor after : Cursor} {ds : Document} (lexed : cursor.Lexed)
    (enough : cursor.tokens.length ≤ cursor.limit) (ran : document cursor = .ok (ds, after)) :
    after.tokens = [] := by
  obtain ⟨token, same, ⟨⟩, ran⟩ := bind_eq_ok ran
  split at ran
  · obtain ⟨_, _, refused, -⟩ := bind_eq_ok ran
    cases refused
  · obtain ⟨limit, same, ⟨⟩, ran⟩ := bind_eq_ok ran
    exact definitionsWithin_tokens lexed enough ran

end Grammar

theorem lexed_start (source : String) :
    Cursor.Lexed ⟨Token.lex source.toList, (Token.lex source.toList).length, none⟩ :=
  ⟨lex_lexed source.toList, by simp⟩

/-- A text that is read holds no large integer that is found, and its document has no defect. -/
theorem parse_eq_ok {source : String} {document : Document} (parsed : parse source = .ok document) :
    IntegerScan.scan source = .ok () ∧ ∃ after,
      Grammar.document ⟨Token.lex source.toList, (Token.lex source.toList).length, none⟩ =
        .ok (document, after) := by
  unfold parse at parsed
  split at parsed
  · cases parsed
  · cases parsed
  · next scanned =>
    dsimp only at parsed
    split at parsed
    · cases parsed
    · next read =>
      split at parsed
      · cases parsed
      · cases parsed
        exact ⟨scanned, _, read⟩

/-- A document that is read from a text can be written. -/
theorem parse_written {source : String} {document : Document}
    (parsed : parse source = .ok document) :
    ∀ d ∈ document, d.Written := by
  obtain ⟨-, after, read⟩ := parse_eq_ok parsed
  exact (Grammar.yields_document.gives (lexed_start source) read).1

/-- A text that is read is cut into proper tokens to its end. -/
theorem parse_proper {source : String} {document : Document} (parsed : parse source = .ok document) :
    ∀ token ∈ Token.lex source.toList, Rule.isProper token = true := by
  obtain ⟨-, after, read⟩ := parse_eq_ok parsed
  obtain ⟨-, ⟨taken, tokens, proper⟩, -⟩ := Grammar.yields_document.gives (lexed_start source) read
  have ended := Grammar.document_tokens (lexed_start source) (Nat.le_refl _) read
  rw [ended, List.append_nil] at tokens
  dsimp only at tokens
  rwa [tokens]

/-- A text is refused only for not being well-formed, or for an integer that is found to be large. -/
theorem parse_refused {source : String} {e : SchemaError}
    (refused : parse source = .error (.error e)) :
    e = .malformed ∨ ∃ literal, e = .integerRange literal := by
  unfold parse at refused
  split at refused
  · next literal _ =>
    cases refused
    exact .inr ⟨literal, rfl⟩
  · cases refused
  · dsimp only at refused
    split at refused
    · next read =>
      cases refused
      exact .inl (Grammar.yields_document.refuses (lexed_start source) read)
    · split at refused <;> cases refused

/-- The reading crashes on an integer only if there is a large one, which was not found before. -/
theorem parse_integerToken {source : String}
    (failed : parse source = .error (.crash .integerToken)) :
    IntegerScan.scan source = .ok () ∧ ∃ token ∈ Token.lex source.toList, token.IsLarge := by
  unfold parse at failed
  split at failed
  · cases failed
  · cases failed
  · next scanned =>
    dsimp only at failed
    split at failed
    · next read =>
      cases failed
      exact ⟨scanned, (Grammar.yields_document.fails (lexed_start source) read).resolve_left id⟩
    · next read =>
      obtain ⟨-, -, lexed⟩ := Grammar.yields_document.gives (lexed_start source) read
      split at failed
      · next defect =>
        cases failed
        exact absurd defect lexed.defect
      · cases failed

end Document

end SdlCompiler
