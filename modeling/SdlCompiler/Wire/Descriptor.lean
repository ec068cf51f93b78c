import SdlCompiler.Wire.Value

/-!
# Schema files as messages

The form in which a generator gets a schema. References are names, except that an interface
that something implements, and an object at the root of an operation, is copied in full.
-/

namespace SdlCompiler.Wire

structure Argument where
  name : String := ""
  value : Option Value := none
deriving Repr, Inhabited

instance : Message Argument where
  empty := {}
  records a := Record.ofText 1 a.name ++ Record.ofMessage 2 a.value
  merge limit a r :=
    match r.number with
    | 1 => do return { a with name := ← r.text? }
    | 2 => do return { a with value := some (← r.into? limit (a.value.getD .unset)) }
    | _ => r.skip? limit a

structure Directive where
  name : String := ""
  arguments : List Argument := []
deriving Repr, Inhabited

instance : Message Directive where
  empty := {}
  records d := Record.ofText 1 d.name ++ Record.ofMessages 2 d.arguments
  merge limit d r :=
    match r.number with
    | 1 => do return { d with name := ← r.text? }
    | 2 => do return { d with arguments := d.arguments ++ [← r.message? limit] }
    | _ => r.skip? limit d

structure InputValue where
  name : String := ""
  description : String := ""
  type : Option TypeRef := none
  default : Option Value := none
  directives : List Directive := []
deriving Repr, Inhabited

instance : Message InputValue where
  empty := {}
  records v :=
    Record.ofText 1 v.name ++ Record.ofText 2 v.description ++ Record.ofMessage 3 v.type ++
      Record.ofMessage 4 v.default ++ Record.ofMessages 5 v.directives
  merge limit v r :=
    match r.number with
    | 1 => do return { v with name := ← r.text? }
    | 2 => do return { v with description := ← r.text? }
    | 3 => do return { v with type := some (← r.into? limit (v.type.getD Message.empty)) }
    | 4 => do return { v with default := some (← r.into? limit (v.default.getD Message.empty)) }
    | 5 => do return { v with directives := v.directives ++ [← r.message? limit] }
    | _ => r.skip? limit v

structure Field where
  name : String := ""
  description : String := ""
  arguments : List InputValue := []
  type : Option TypeRef := none
  directives : List Directive := []
deriving Repr, Inhabited

instance : Message Field where
  empty := {}
  records f :=
    Record.ofText 1 f.name ++ Record.ofText 2 f.description ++
      Record.ofMessages 3 f.arguments ++ Record.ofMessage 4 f.type ++
      Record.ofMessages 5 f.directives
  merge limit f r :=
    match r.number with
    | 1 => do return { f with name := ← r.text? }
    | 2 => do return { f with description := ← r.text? }
    | 3 => do return { f with arguments := f.arguments ++ [← r.message? limit] }
    | 4 => do return { f with type := some (← r.into? limit (f.type.getD Message.empty)) }
    | 5 => do return { f with directives := f.directives ++ [← r.message? limit] }
    | _ => r.skip? limit f

/-- An interface, with copies of the interfaces that it implements. -/
inductive Interface where
  | mk (name description : String) (directives : List Directive) (fields : List Field)
    (implements : List Interface)
deriving Repr, Inhabited

namespace Interface

def name : Interface → String
  | mk name _ _ _ _ => name

def description : Interface → String
  | mk _ description _ _ _ => description

def directives : Interface → List Directive
  | mk _ _ directives _ _ => directives

def fields : Interface → List Field
  | mk _ _ _ fields _ => fields

def implements : Interface → List Interface
  | mk _ _ _ _ implements => implements

/-- An interface of which nothing but the name is given. -/
def nameOnly (name : String) : Interface :=
  mk name "" [] [] []

mutual

def records : Interface → List Record
  | mk name description directives fields implements =>
    Record.ofText 1 name ++ Record.ofText 2 description ++ Record.ofMessages 3 directives ++
      Record.ofMessages 4 fields ++ parentRecords implements

def parentRecords : List Interface → List Record
  | [] => []
  | parent :: rest => ⟨5, .bytes (writeRecords parent.records)⟩ :: parentRecords rest

end

def merge : Nat → Interface → Record → Option Interface
  | 0, mk name description directives fields implements, r =>
    match r.number with
    | 1 => do return mk (← r.text?) description directives fields implements
    | 2 => do return mk name (← r.text?) directives fields implements
    | _ => none
  | limit + 1, mk name description directives fields implements, r =>
    match r.number with
    | 1 => do return mk (← r.text?) description directives fields implements
    | 2 => do return mk name (← r.text?) directives fields implements
    | 3 => do
      return mk name description (directives ++ [← r.message? (limit + 1)]) fields implements
    | 4 => do
      return mk name description directives (fields ++ [← r.message? (limit + 1)]) implements
    | 5 => do
      let parent ← (← r.embedded?).foldlM (merge limit) (nameOnly "")
      return mk name description directives fields (implements ++ [parent])
    | _ => r.skip? (limit + 1) (mk name description directives fields implements)

instance : Message Interface where
  empty := nameOnly ""
  records := records
  merge := merge

end Interface

structure Object where
  name : String := ""
  description : String := ""
  implements : List Interface := []
  directives : List Directive := []
  fields : List Field := []
deriving Repr, Inhabited

instance : Message Object where
  empty := {}
  records o :=
    Record.ofText 1 o.name ++ Record.ofText 2 o.description ++
      Record.ofMessages 3 o.implements ++ Record.ofMessages 4 o.directives ++
      Record.ofMessages 5 o.fields
  merge limit o r :=
    match r.number with
    | 1 => do return { o with name := ← r.text? }
    | 2 => do return { o with description := ← r.text? }
    | 3 => do return { o with implements := o.implements ++ [← r.message? limit] }
    | 4 => do return { o with directives := o.directives ++ [← r.message? limit] }
    | 5 => do return { o with fields := o.fields ++ [← r.message? limit] }
    | _ => r.skip? limit o

structure Union where
  name : String := ""
  description : String := ""
  directives : List Directive := []
  members : List Name := []
deriving Repr, Inhabited

instance : Message Union where
  empty := {}
  records u :=
    Record.ofText 1 u.name ++ Record.ofText 2 u.description ++
      Record.ofMessages 3 u.directives ++ Record.ofMessages 4 u.members
  merge limit u r :=
    match r.number with
    | 1 => do return { u with name := ← r.text? }
    | 2 => do return { u with description := ← r.text? }
    | 3 => do return { u with directives := u.directives ++ [← r.message? limit] }
    | 4 => do return { u with members := u.members ++ [← r.message? limit] }
    | _ => r.skip? limit u

/-- The value of an enum, or a scalar. -/
structure Symbol where
  name : String := ""
  description : String := ""
  directives : List Directive := []
deriving Repr, Inhabited

instance : Message Symbol where
  empty := {}
  records s :=
    Record.ofText 1 s.name ++ Record.ofText 2 s.description ++ Record.ofMessages 3 s.directives
  merge limit s r :=
    match r.number with
    | 1 => do return { s with name := ← r.text? }
    | 2 => do return { s with description := ← r.text? }
    | 3 => do return { s with directives := s.directives ++ [← r.message? limit] }
    | _ => r.skip? limit s

structure Enum where
  name : String := ""
  description : String := ""
  directives : List Directive := []
  values : List Symbol := []
deriving Repr, Inhabited

instance : Message Enum where
  empty := {}
  records e :=
    Record.ofText 1 e.name ++ Record.ofText 2 e.description ++
      Record.ofMessages 3 e.directives ++ Record.ofMessages 4 e.values
  merge limit e r :=
    match r.number with
    | 1 => do return { e with name := ← r.text? }
    | 2 => do return { e with description := ← r.text? }
    | 3 => do return { e with directives := e.directives ++ [← r.message? limit] }
    | 4 => do return { e with values := e.values ++ [← r.message? limit] }
    | _ => r.skip? limit e

structure InputObject where
  name : String := ""
  description : String := ""
  directives : List Directive := []
  fields : List InputValue := []
deriving Repr, Inhabited

instance : Message InputObject where
  empty := {}
  records i :=
    Record.ofText 1 i.name ++ Record.ofText 2 i.description ++
      Record.ofMessages 3 i.directives ++ Record.ofMessages 4 i.fields
  merge limit i r :=
    match r.number with
    | 1 => do return { i with name := ← r.text? }
    | 2 => do return { i with description := ← r.text? }
    | 3 => do return { i with directives := i.directives ++ [← r.message? limit] }
    | 4 => do return { i with fields := i.fields ++ [← r.message? limit] }
    | _ => r.skip? limit i

/-- A place for directives, by its number. The number need not be that of any place. -/
inductive Location where
  | unset
  | executable (number : Int32)
  | typeSystem (number : Int32)
deriving DecidableEq, Repr, Inhabited

instance : Message Location where
  empty := .unset
  records
    | .unset => []
    | .executable number => [⟨1, .varint number.toInt64.toUInt64⟩]
    | .typeSystem number => [⟨2, .varint number.toInt64.toUInt64⟩]
  merge limit l r :=
    match r.number with
    | 1 => r.int32?.map .executable
    | 2 => r.int32?.map .typeSystem
    | _ => r.skip? limit l

structure DirectiveDefinition where
  name : String := ""
  description : String := ""
  arguments : List InputValue := []
  locations : List Location := []
  repeatable : Bool := false
deriving Repr, Inhabited

instance : Message DirectiveDefinition where
  empty := {}
  records d :=
    Record.ofText 1 d.name ++ Record.ofText 2 d.description ++
      Record.ofMessages 3 d.arguments ++ Record.ofMessages 4 d.locations ++
      Record.ofBool 5 d.repeatable
  merge limit d r :=
    match r.number with
    | 1 => do return { d with name := ← r.text? }
    | 2 => do return { d with description := ← r.text? }
    | 3 => do return { d with arguments := d.arguments ++ [← r.message? limit] }
    | 4 => do return { d with locations := d.locations ++ [← r.message? limit] }
    | 5 => do return { d with repeatable := ← r.bool? }
    | _ => r.skip? limit d

structure Roots where
  directives : List Directive := []
  query : Option Object := none
  mutation : Option Object := none
  subscription : Option Object := none
deriving Repr, Inhabited

instance : Message Roots where
  empty := {}
  records s :=
    Record.ofMessages 1 s.directives ++ Record.ofMessage 2 s.query ++
      Record.ofMessage 3 s.mutation ++ Record.ofMessage 4 s.subscription
  merge limit s r :=
    match r.number with
    | 1 => do return { s with directives := s.directives ++ [← r.message? limit] }
    | 2 => do return { s with query := some (← r.into? limit (s.query.getD {})) }
    | 3 => do return { s with mutation := some (← r.into? limit (s.mutation.getD {})) }
    | 4 => do return { s with subscription := some (← r.into? limit (s.subscription.getD {})) }
    | _ => r.skip? limit s

structure File where
  name : String := ""
  schema : Option Roots := none
  objects : List Object := []
  interfaces : List Interface := []
  unions : List Union := []
  enums : List Enum := []
  scalars : List Symbol := []
  inputs : List InputObject := []
  directives : List DirectiveDefinition := []
deriving Repr, Inhabited

instance : Message File where
  empty := {}
  records f :=
    Record.ofText 1 f.name ++ Record.ofMessage 2 f.schema ++ Record.ofMessages 3 f.objects ++
      Record.ofMessages 4 f.interfaces ++ Record.ofMessages 5 f.unions ++
      Record.ofMessages 6 f.enums ++ Record.ofMessages 7 f.scalars ++
      Record.ofMessages 8 f.inputs ++ Record.ofMessages 9 f.directives
  merge limit f r :=
    match r.number with
    | 1 => do return { f with name := ← r.text? }
    | 2 => do return { f with schema := some (← r.into? limit (f.schema.getD {})) }
    | 3 => do return { f with objects := f.objects ++ [← r.message? limit] }
    | 4 => do return { f with interfaces := f.interfaces ++ [← r.message? limit] }
    | 5 => do return { f with unions := f.unions ++ [← r.message? limit] }
    | 6 => do return { f with enums := f.enums ++ [← r.message? limit] }
    | 7 => do return { f with scalars := f.scalars ++ [← r.message? limit] }
    | 8 => do return { f with inputs := f.inputs ++ [← r.message? limit] }
    | 9 => do return { f with directives := f.directives ++ [← r.message? limit] }
    | _ => r.skip? limit f

end SdlCompiler.Wire
