import SdlCompiler.Text.BlockString

/-!
# Why a schema is not compiled

A schema is refused with an error that names its cause. A crash is no answer at all: the
compiler met something that it takes to be impossible.
-/

namespace SdlCompiler

inductive SchemaError where
  /-- The text is no document. -/
  | malformed
  | integerRange (literal : String)
  | duplicateSchema
  | duplicateDefinition (name : String)
  | unsupportedDefinition (kind : String) (name : Option String)
  | unresolvedType (name : String) (referrer : String)
  | nonNullOfNonNull (context : String)
  | unknownValue (value : String) (context : String)
  | unknownLocation (location : String) (directive : String)
deriving DecidableEq, Repr

def SchemaError.message : SchemaError → String
  | malformed => "the text is not a type system document"
  | integerRange literal => s!"integer `{literal}` does not fit in 64 bits"
  | duplicateSchema => "multiple `schema` definitions"
  | duplicateDefinition name => s!"`{name}` is defined more than once"
  | unsupportedDefinition kind none => s!"unsupported definition: {kind}"
  | unsupportedDefinition kind (some name) => s!"unsupported definition: {kind} `{name}`"
  | unresolvedType name referrer => s!"unknown type `{name}` referenced from {referrer}"
  | nonNullOfNonNull context => s!"unknown type shape: non-null of non-null in {context}"
  | unknownValue value context => s!"unknown value {value} in {context}"
  | unknownLocation location directive =>
    s!"unknown directive location `{location}` on @{directive}"

/-- What a crash is about. -/
inductive Defect where
  /-- The search for large integers left the text or cut a character. -/
  | scan
  /-- An integer token that 64 bits do not hold. -/
  | integerToken
  /-- A character that no block string may hold. -/
  | blockCharacter
  | blockString (fault : Text.BlockString.Fault)
  /-- More than fifteen lists around one type. -/
  | listDepth
  /-- A definition whose place in the file does not exist. -/
  | missingSlot
  /-- A part of a log filter that starts or ends inside a character. -/
  | filterPart
deriving DecidableEq, Repr

/-- An error of the given kind, or a crash. -/
inductive Abort (ε : Type) where
  | error (cause : ε)
  | crash (defect : Defect)
deriving DecidableEq, Repr

/-- The same end, with another account of the error. -/
def Abort.map {ε δ : Type} (f : ε → δ) : Abort ε → Abort δ
  | error cause => .error (f cause)
  | crash defect => .crash defect

end SdlCompiler
