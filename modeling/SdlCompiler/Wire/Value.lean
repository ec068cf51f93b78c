import SdlCompiler.Numeric.Binary64
import SdlCompiler.Wire.Message

/-!
# Types and values as messages

On the wire nothing has to be there: a type may lack its kind or its element, and a value may
be no value. A record that sets the kind that is already there adds to it; one that sets another
kind replaces it.
-/

namespace SdlCompiler.Wire

/-- A name in a message of its own. -/
structure Name where
  text : String := ""
deriving DecidableEq, Repr, Inhabited

instance : Message Name where
  empty := {}
  records n := Record.ofText 1 n.text
  merge limit n r :=
    match r.number with
    | 1 => do return { n with text := ← r.text? }
    | _ => r.skip? limit n

/-! ## Types -/

/-- A type. `nonNull` tells that it stands in a message that makes it non-null. -/
inductive TypeRef where
  | unset (nonNull : Bool)
  | named (nonNull : Bool) (name : String)
  | untypedList (nonNull : Bool)
  | list (nonNull : Bool) (element : TypeRef)
deriving DecidableEq, Repr, Inhabited

namespace TypeRef

def isNonNull : TypeRef → Bool
  | unset nonNull | named nonNull _ | untypedList nonNull | list nonNull _ => nonNull

def ofElement (nonNull : Bool) : Option TypeRef → TypeRef
  | none => untypedList nonNull
  | some element => list nonNull element

/-- The records of the kind of a type, without the message that makes it non-null. -/
def kindRecords : TypeRef → List Record
  | unset _ => []
  | named _ name => [Record.embed 1 (Name.mk name)]
  | untypedList _ => [⟨2, .bytes []⟩]
  | list _ element =>
    let inner := element.kindRecords
    let type := if element.isNonNull then [⟨3, .bytes (writeRecords inner)⟩] else inner
    [⟨2, .bytes (writeRecords [⟨1, .bytes (writeRecords type)⟩])⟩]

def records (t : TypeRef) : List Record :=
  if t.isNonNull then [⟨3, .bytes (writeRecords t.kindRecords)⟩] else t.kindRecords

/-- The name that is there, if the type is a named one of this kind. -/
def nameOf (nonNull : Bool) : TypeRef → Name
  | named nonNull' name => if nonNull' = nonNull then ⟨name⟩ else {}
  | _ => {}

/-- The element that is there, if the type is a list of this kind. -/
def elementOf (nonNull : Bool) : TypeRef → Option TypeRef
  | list nonNull' element => if nonNull' = nonNull then some element else none
  | _ => none

mutual

def merge : Nat → TypeRef → Record → Option TypeRef
  | 0, _, _ => none
  | limit + 1, t, r =>
    match r.number with
    | 1 => do
      let name ← Message.mergeRecords limit (t.nameOf false) (← r.embedded?)
      return .named false name.text
    | 2 => do
      return .ofElement false (← (← r.embedded?).foldlM (mergeElement limit) (t.elementOf false))
    | 3 => do
      (← r.embedded?).foldlM (mergeNonNull limit) (if t.isNonNull then t else .unset true)
    | _ => r.skip? (limit + 1) t

/-- Merges into a message that makes a type non-null. -/
def mergeNonNull : Nat → TypeRef → Record → Option TypeRef
  | 0, _, _ => none
  | limit + 1, t, r =>
    match r.number with
    | 1 => do
      let name ← Message.mergeRecords limit (t.nameOf true) (← r.embedded?)
      return .named true name.text
    | 2 => do
      return .ofElement true (← (← r.embedded?).foldlM (mergeElement limit) (t.elementOf true))
    | _ => r.skip? (limit + 1) t

/-- Merges into a message that makes a list of a type. -/
def mergeElement : Nat → Option TypeRef → Record → Option (Option TypeRef)
  | 0, _, _ => none
  | limit + 1, element, r =>
    match r.number with
    | 1 => do
      return some (← (← r.embedded?).foldlM (merge limit) (element.getD (.unset false)))
    | _ => r.skip? (limit + 1) element

end

instance : Message TypeRef where
  empty := .unset false
  records := records
  merge := merge

end TypeRef

/-! ## Values -/

inductive Value where
  | unset
  | variable (name : String)
  | int (n : Int64)
  | float (x : Numeric.Binary64)
  | string (text : String)
  | boolean (value : Bool)
  | null
  | enum (symbol : String)
  | list (items : List Value)
  | object (fields : List (String × Option Value))
deriving Repr, Inhabited

namespace Value

mutual

def records : Value → List Record
  | .unset => []
  | .variable name => [Record.embed 1 (Name.mk name)]
  | .int n => [⟨2, .varint n.toUInt64⟩]
  | .float x => [⟨3, .fixed64 x.bits⟩]
  | .string text => [⟨4, .bytes text.toUTF8.toList⟩]
  | .boolean value => [⟨5, .varint (if value then 1 else 0)⟩]
  | .null => [⟨6, .bytes []⟩]
  | .enum symbol => [Record.embed 7 (Name.mk symbol)]
  | .list items => [⟨8, .bytes (writeRecords (itemRecords items))⟩]
  | .object fields => [⟨9, .bytes (writeRecords (fieldRecords fields))⟩]

def itemRecords : List Value → List Record
  | [] => []
  | item :: rest => ⟨1, .bytes (writeRecords item.records)⟩ :: itemRecords rest

def fieldRecords : List (String × Option Value) → List Record
  | [] => []
  | (name, none) :: rest => ⟨1, .bytes (writeRecords (Record.ofText 1 name))⟩ :: fieldRecords rest
  | (name, some value) :: rest =>
    ⟨1, .bytes (writeRecords (Record.ofText 1 name ++ [⟨2, .bytes (writeRecords value.records)⟩]))⟩
      :: fieldRecords rest

end

def variableOf : Value → Name
  | .variable name => ⟨name⟩
  | _ => {}

def symbolOf : Value → Name
  | .enum symbol => ⟨symbol⟩
  | _ => {}

def itemsOf : Value → List Value
  | .list items => items
  | _ => []

def fieldsOf : Value → List (String × Option Value)
  | .object fields => fields
  | _ => []

/-- Merges a record that embeds no message. -/
def mergeScalar? (r : Record) : Option Value :=
  match r.number with
  | 2 => r.int64?.map .int
  | 3 => r.fixed64?.map fun bits => .float ⟨bits⟩
  | 4 => r.text?.map .string
  | 5 => r.bool?.map .boolean
  | _ => none

mutual

def merge : Nat → Value → Record → Option Value
  | 0, _, r => mergeScalar? r
  | limit + 1, v, r =>
    match r.number with
    | 1 => do return .variable (← Message.mergeRecords limit v.variableOf (← r.embedded?)).text
    | 2 | 3 | 4 | 5 => mergeScalar? r
    | 6 => do
      let _ ← (← r.embedded?).mapM (Record.skip? limit ())
      return .null
    | 7 => do return .enum (← Message.mergeRecords limit v.symbolOf (← r.embedded?)).text
    | 8 => do return .list (← (← r.embedded?).foldlM (mergeItem limit) v.itemsOf)
    | 9 => do return .object (← (← r.embedded?).foldlM (mergeField limit) v.fieldsOf)
    | _ => r.skip? (limit + 1) v

/-- Merges into the message of a list, which gets one more item. -/
def mergeItem : Nat → List Value → Record → Option (List Value)
  | 0, _, _ => none
  | limit + 1, items, r =>
    match r.number with
    | 1 => do return items ++ [← (← r.embedded?).foldlM (merge limit) .unset]
    | _ => r.skip? (limit + 1) items

/-- Merges into the message of an object, which gets one more field. -/
def mergeField : Nat → List (String × Option Value) → Record →
    Option (List (String × Option Value))
  | 0, _, _ => none
  | limit + 1, fields, r =>
    match r.number with
    | 1 => do return fields ++ [← (← r.embedded?).foldlM (mergeFieldPart limit) ("", none)]
    | _ => r.skip? (limit + 1) fields

/-- Merges into the message of one field of an object. -/
def mergeFieldPart : Nat → String × Option Value → Record → Option (String × Option Value)
  | 0, field, r =>
    match r.number with
    | 1 => do return (← r.text?, field.2)
    | _ => none
  | limit + 1, field, r =>
    match r.number with
    | 1 => do return (← r.text?, field.2)
    | 2 => do
      return (field.1, some (← (← r.embedded?).foldlM (merge limit) (field.2.getD .unset)))
    | _ => r.skip? (limit + 1) field

end

instance : Message Value where
  empty := .unset
  records := records
  merge := merge

end Value

end SdlCompiler.Wire
