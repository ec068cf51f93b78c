import SdlCompiler.Wire.Message

/-!
# Messages that nest too deep

A request whose messages nest more than a hundred deep cannot be decoded. Says where, in the
names that the protocol has for messages and their fields.
-/

namespace SdlCompiler.Wire

/-- A field that holds messages: its number, its name, and the name of the messages. -/
abbrev Embedding := Nat × String × String

/-- The fields of a message that hold messages. -/
def embeddings : String → List Embedding
  | "CodeGeneratorRequest" =>
    [(3, "compiler_version", "Version"), (15, "graphql_file", "FileDescriptorGraphql")]
  | "FileDescriptorGraphql" =>
    [(2, "schema", "SchemaDescriptorProto"),
      (3, "objects", "ObjectTypeDefinitionDescriptorProto"),
      (4, "interfaces", "InterfaceTypeDefinitionDescriptorProto"),
      (5, "unions", "UnionTypeDefinitionDescriptorProto"),
      (6, "enums", "EnumTypeDefinitionDescriptorProto"),
      (7, "scalars", "ScalarTypeDefinitionDescriptorProto"),
      (8, "input_objects", "InputObjectTypeDefinitionDescriptorProto"),
      (9, "directives", "DirectiveDefinitionDescriptorProto")]
  | "SchemaDescriptorProto" =>
    [(1, "directives", "DirectiveDescriptorProto"),
      (2, "query", "ObjectTypeDefinitionDescriptorProto"),
      (3, "mutation", "ObjectTypeDefinitionDescriptorProto"),
      (4, "subscription", "ObjectTypeDefinitionDescriptorProto")]
  | "ObjectTypeDefinitionDescriptorProto" =>
    [(3, "implements", "InterfaceTypeDefinitionDescriptorProto"),
      (4, "directives", "DirectiveDescriptorProto"),
      (5, "fields", "FieldDefinitionDescriptorProto")]
  | "InterfaceTypeDefinitionDescriptorProto" =>
    [(3, "directives", "DirectiveDescriptorProto"),
      (4, "fields", "FieldDefinitionDescriptorProto"),
      (5, "implements", "InterfaceTypeDefinitionDescriptorProto")]
  | "UnionTypeDefinitionDescriptorProto" =>
    [(3, "directives", "DirectiveDescriptorProto"),
      (4, "member_types", "NamedTypeDescriptorProto")]
  | "EnumTypeDefinitionDescriptorProto" =>
    [(3, "directives", "DirectiveDescriptorProto"),
      (4, "values", "EnumValueDefinitionDescription")]
  | "EnumValueDefinitionDescription" => [(3, "directives", "DirectiveDescriptorProto")]
  | "ScalarTypeDefinitionDescriptorProto" => [(3, "directives", "DirectiveDescriptorProto")]
  | "InputObjectTypeDefinitionDescriptorProto" =>
    [(3, "directives", "DirectiveDescriptorProto"),
      (4, "fields", "InputValueDefinitionDescriptorProto")]
  | "DirectiveDefinitionDescriptorProto" =>
    [(3, "arguments", "InputValueDefinitionDescriptorProto"),
      (4, "locations", "DirectiveLocationDescriptorProto")]
  | "FieldDefinitionDescriptorProto" =>
    [(3, "arguments", "InputValueDefinitionDescriptorProto"),
      (4, "r#type", "TypeDescriptorProto"),
      (5, "directives", "DirectiveDescriptorProto")]
  | "InputValueDefinitionDescriptorProto" =>
    [(3, "r#type", "TypeDescriptorProto"),
      (4, "default_value", "ValueDescriptorProto"),
      (5, "directives", "DirectiveDescriptorProto")]
  | "DirectiveDescriptorProto" => [(2, "arguments", "ArgumentDescriptorProto")]
  | "ArgumentDescriptorProto" => [(2, "value", "ValueDescriptorProto")]
  | "TypeDescriptorProto" =>
    [(1, "r#type", "NamedTypeDescriptorProto"), (2, "r#type", "ListTypeDescriptorProto"),
      (3, "r#type", "NonNullTypeDescriptorProto")]
  | "ListTypeDescriptorProto" => [(1, "r#type", "TypeDescriptorProto")]
  | "NonNullTypeDescriptorProto" =>
    [(1, "r#type", "NamedTypeDescriptorProto"), (2, "r#type", "ListTypeDescriptorProto")]
  | "ValueDescriptorProto" =>
    [(1, "value", "VariableDescriptorProto"), (6, "value", "NullValueDescriptorProto"),
      (7, "value", "EnumValueDescriptorProto"), (8, "value", "ListValueDescriptorProto"),
      (9, "value", "ObjectValueDescriptorProto")]
  | "ListValueDescriptorProto" => [(1, "values", "ValueDescriptorProto")]
  | "ObjectValueDescriptorProto" => [(1, "fields", "ObjectFieldDescriptorProto")]
  | "ObjectFieldDescriptorProto" => [(2, "value", "ValueDescriptorProto")]
  | _ => []

/-- The fields around the first message that nests too deep, the innermost first, in the records
of a message with the given name. -/
def tooDeep? : Nat → String → List Record → Option (List String)
  | 0, message, records =>
    records.findSome? fun r =>
      ((embeddings message).lookup r.number).map fun (field, _) => [message ++ "." ++ field]
  | limit + 1, message, records =>
    records.findSome? fun r => do
      let (field, inner) ← (embeddings message).lookup r.number
      let fields ← tooDeep? limit inner (← r.embedded?)
      return fields ++ [message ++ "." ++ field]

/-- Why bytes cannot be decoded as a request. -/
inductive RequestFault where
  | malformed
  /-- The fields around a message that nests too deep. -/
  | tooDeep (fields : List String)
deriving DecidableEq, Repr

def RequestFault.ofBytes (bytes : List UInt8) : RequestFault :=
  match (readRecords? bytes).bind (tooDeep? 100 "CodeGeneratorRequest") with
  | some fields => .tooDeep fields
  | none => .malformed

/-- The text of a fault. What is wrong with malformed bytes is not told. -/
def RequestFault.message : RequestFault → String
  | malformed => "failed to decode Protobuf message"
  | tooDeep fields =>
    "failed to decode Protobuf message: " ++
      String.join (fields.map (· ++ ": ")) ++ "recursion limit reached"

end SdlCompiler.Wire
