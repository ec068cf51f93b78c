import SdlCompiler.Document.Basic
import SdlCompiler.Document.IntegerScan
import SdlCompiler.Document.Token
import SdlCompiler.Numeric.Decimal
import SdlCompiler.Numeric.Shortest
import SdlCompiler.Schema.Error
import SdlCompiler.Text.BlockString
import SdlCompiler.Text.Quoted

/-!
# The grammar of documents

Each rule of the grammar reads tokens from the front of a list. A rule fails at the first
token that cannot stand where it does. The value of a literal is taken when the token after it
has been read, and only if that token may follow some value; the value of a description, when
the whole document has been read, and only if the definition is kept. A variable and an unknown
location are refused when the token after them has been read.
-/

namespace SdlCompiler.Document

/-- The tokens to come, and the first kept description so far that has no value. -/
structure Cursor where
  tokens : List Token
  /-- The number of tokens of the whole text, which bounds every repetition. -/
  limit : Nat
  defect : Option Defect := none
deriving DecidableEq, Repr

/-- A rule of the grammar. -/
def Rule (α : Type) : Type :=
  Cursor → Except (Abort SchemaError) (α × Cursor)

namespace Rule

variable {α β : Type}

instance : Monad Rule where
  pure a := fun cursor => .ok (a, cursor)
  bind rule next := fun cursor =>
    match rule cursor with
    | .ok (a, cursor) => next a cursor
    | .error abort => .error abort

def malformed : Rule α :=
  fun _ => .error (.error .malformed)

/-- The next token, which must be one. -/
def next : Rule Token :=
  fun cursor =>
    match cursor.tokens with
    | [] | .invalid :: _ | .unfinished :: _ => .error (.error .malformed)
    | .crash :: _ => .error (.crash .blockCharacter)
    | token :: rest => .ok (token, { cursor with tokens := rest })

/-- The next token, left in place. -/
def peek : Rule (Option Token) :=
  fun cursor => .ok (cursor.tokens.head?, cursor)

/-- Fails at the next token. -/
def refuse : Rule α := do
  let _ ← next
  malformed

/-- Whether some value may end before this token. -/
def mayFollowValue : Token → Bool
  | .name _ | .int _ | .float _ | .quoted _ | .block _ | .unfinished => true
  | .punctuator c => ['@', '$', '[', ']', '{', '}', ')'].contains c
  | .invalid | .crash => false

/-- The outcome of a literal, if the token after it may follow a value. -/
def settle (outcome : Except (Abort SchemaError) α) : Rule α :=
  fun cursor =>
    match cursor.tokens with
    | [] => .error (.error .malformed)
    | .crash :: _ => .error (.crash .blockCharacter)
    | token :: _ =>
      if mayFollowValue token then outcome.map fun a => (a, cursor)
      else .error (.error .malformed)

/-- The given token. -/
def expect (token : Token) : Rule Unit := do
  if (← next) ≠ token then malformed

/-- The given token, if it comes next. -/
def accept (token : Token) : Rule Bool := do
  if (← peek) = some token then
    let _ ← next
    return true
  else return false

def name : Rule String := do
  match ← next with
  | .name text => return text
  | _ => malformed

/-- As many items as there are up to the closing token, which is taken too. -/
def upTo (close : Token) (item : Rule α) : Nat → Rule (List α)
  | 0 => refuse
  | limit + 1 => do
    if ← accept close then return []
    let first ← item
    return first :: (← upTo close item limit)

/-- A bound on the repetitions that the tokens to come allow. -/
def limit : Rule Nat :=
  fun cursor => .ok (cursor.limit, cursor)

def itemsUpTo (close : Token) (item : Rule α) : Rule (List α) := do
  upTo close item (← limit)

def someItemsUpTo (close : Token) (item : Rule α) : Rule (List α) := do
  let first ← item
  return first :: (← itemsUpTo close item)

/-- Items as long as the given token comes next, which introduces them. -/
def eachAfterUpTo (mark : Token) (item : Rule α) : Nat → Rule (List α)
  | 0 => pure []
  | limit + 1 => do
    if ← accept mark then
      let first ← item
      return first :: (← eachAfterUpTo mark item limit)
    else return []

def eachAfter (mark : Token) (item : Rule α) : Rule (List α) := do
  eachAfterUpTo mark item (← limit)

/-- Items with the given token between them and, if one likes, before the first. -/
def separated (mark : Token) (item : Rule α) : Rule (List α) := do
  let _ ← accept mark
  let first ← item
  return first :: (← eachAfter mark item)

/-- The same rule, with its descriptions left without a value. -/
def unkept (defect : Option Defect) (rule : Rule α) : Rule α := do
  let a ← rule
  fun cursor => .ok (a, { cursor with defect })

end Rule

/-- The locations of directives that the grammar has words for. -/
inductive Site where
  | query
  | mutation
  | subscription
  | field
  | fragmentDefinition
  | fragmentSpread
  | inlineFragment
  | variableDefinition
  | schema
  | scalar
  | object
  | fieldDefinition
  | argumentDefinition
  | interface
  | union
  | enum
  | enumValue
  | inputObject
  | inputFieldDefinition
deriving DecidableEq, Repr

namespace Site

/-- The location that a word of the grammar stands for. -/
def ofWord? : String → Option Site
  | "QUERY" => some .query
  | "MUTATION" => some .mutation
  | "SUBSCRIPTION" => some .subscription
  | "FIELD" => some .field
  | "FRAGMENT_DEFINITION" => some .fragmentDefinition
  | "FRAGMENT_SPREAD" => some .fragmentSpread
  | "INLINE_FRAGMENT" => some .inlineFragment
  | "VARIABLE_DEFINITION" => some .variableDefinition
  | "SCHEMA" => some .schema
  | "SCALAR" => some .scalar
  | "OBJECT" => some .object
  | "FIELD_DEFINITION" => some .fieldDefinition
  | "ARGUMENT_DEFINITION" => some .argumentDefinition
  | "INTERFACE" => some .interface
  | "UNION" => some .union
  | "ENUM" => some .enum
  | "ENUM_VALUE" => some .enumValue
  | "INPUT_OBJECT" => some .inputObject
  | "INPUT_FIELD_DEFINITION" => some .inputFieldDefinition
  | _ => none

/-- The name of a location in a document. -/
def name : Site → String
  | query => "QUERY"
  | mutation => "MUTATION"
  | subscription => "SUBSCRIPTION"
  | field => "FIELD"
  | fragmentDefinition => "FRAGMENT_DEFINITION"
  | fragmentSpread => "FRAGMENT_SPREAD"
  | inlineFragment => "INLINE_FRAGMENT"
  | variableDefinition => "VARIABLE_DEFINITION"
  | schema => "SCHEMA"
  | scalar => "SCALAR"
  | object => "OBJECT"
  | fieldDefinition => "FIELD_DEFINITION"
  | argumentDefinition => "ARGUMENT_DEFINITION"
  | interface => "INTERFACE"
  | union => "UNION"
  | enum => "ENUM"
  | enumValue => "ENUM_VALUE"
  | inputObject => "INPUT_OBJECT"
  | inputFieldDefinition => "INPUT_FIELD_DEFINITION"

end Site

namespace Grammar

open Rule

/-! ## Values -/

def integer (text : String) : Except (Abort SchemaError) Value :=
  match Numeric.int64? text.toList with
  | some n => .ok (.int (toString n.toInt))
  | none => .error (.crash .integerToken)

def float (text : String) : Value :=
  match Numeric.Binary64.read? text.toList with
  | some x => .float (String.ofList x.shortest)
  | none => .float text

def quoted (raw : List Char) : Except (Abort SchemaError) String :=
  match Text.Quoted.decode raw with
  | some text => .ok (String.ofList text)
  | none => .error (.error .malformed)

def block (raw : List Char) : Except Defect String :=
  match Text.BlockString.value raw with
  | .ok text => .ok (String.ofList text)
  | .error fault => .error (.blockString fault)

/-- A value, with lists and objects at most `depth` deep. -/
def valueWithin : Nat → Rule Value
  | 0 => refuse
  | depth + 1 => do
    match ← next with
    | .int text => settle (integer text)
    | .float text => return float text
    | .quoted raw => settle ((quoted raw).map .string)
    | .block raw => settle ((block raw).map .string |>.mapError .crash)
    | .name "true" => return .boolean true
    | .name "false" => return .boolean false
    | .name "null" => return .null
    | .name symbol => return .enum symbol
    | .punctuator '[' => return .list (← itemsUpTo (.punctuator ']') (valueWithin depth))
    | .punctuator '{' =>
      return .object (← itemsUpTo (.punctuator '}') do
        let key ← name
        expect (.punctuator ':')
        return (key, ← valueWithin depth))
    | .punctuator '$' => do
      let _ ← name
      refuse
    | _ => malformed

def value : Rule Value := do
  valueWithin (← limit)

/-! ## Directives and types -/

def argument : Rule (String × Value) := do
  let key ← name
  expect (.punctuator ':')
  return (key, ← value)

def directive : Rule Directive := do
  let directiveName ← name
  if ← accept (.punctuator '(') then
    return ⟨directiveName, ← itemsUpTo (.punctuator ')') argument⟩
  else return ⟨directiveName, []⟩

def directives : Rule (List Directive) :=
  eachAfter (.punctuator '@') directive

/-- A type under one more mark of its suffix. A mark for non-null counts once. -/
def wrap (type : TypeExpr) (mark : Token) : TypeExpr :=
  if mark = .punctuator ']' then .list type
  else
    match type with
    | .nonNull _ => type
    | _ => .nonNull type

def isTypeMark (token : Token) : Bool :=
  token = .punctuator '!' || token = .punctuator ']'

/-- Whether some type may end before this token. -/
def mayFollowType : Token → Bool
  | .name _ | .quoted _ | .block _ => true
  | token => [Token.punctuator '@', .punctuator ')', .punctuator '}', .punctuator '='].contains token

/-- The marks after the name of a type. More than fifteen lists are too many, which shows when
the type has been read. -/
def typeMarks : Rule (List Token) :=
  fun cursor =>
    let marks := cursor.tokens.takeWhile isTypeMark
    let rest := cursor.tokens.dropWhile isTypeMark
    if marks.count (.punctuator ']') ≤ 15 then .ok (marks, { cursor with tokens := rest })
    else
      match rest with
      | .crash :: _ => .error (.crash .blockCharacter)
      | token :: _ =>
        if mayFollowType token then .error (.crash .listDepth) else .error (.error .malformed)
      | [] => .error (.error .malformed)

/-- Drops the opening brackets of a type, which tell nothing. -/
def openingBrackets : Rule Unit :=
  fun cursor =>
    .ok ((), { cursor with tokens := cursor.tokens.dropWhile (· = .punctuator '[') })

def typeExpr : Rule TypeExpr := do
  openingBrackets
  let typeName ← name
  return (← typeMarks).foldl wrap (.named typeName)

/-! ## Definitions -/

/-- A description, if one comes next. -/
def description : Rule (Option String) :=
  fun cursor =>
    match cursor.tokens with
    | .quoted raw :: rest => settle ((quoted raw).map some) { cursor with tokens := rest }
    | .block raw :: rest =>
      match block raw with
      | .ok text => .ok (some text, { cursor with tokens := rest })
      | .error fault =>
        .ok (some "", { cursor with tokens := rest, defect := cursor.defect <|> some fault })
    | _ => .ok (none, cursor)

def inputValue : Rule InputValue := do
  let description ← description
  let inputName ← name
  expect (.punctuator ':')
  let type ← typeExpr
  let default ← if ← accept (.punctuator '=') then some <$> value else pure none
  return { name := inputName, description, type, default, directives := ← directives }

def arguments : Rule (List InputValue) := do
  if ← accept (.punctuator '(') then someItemsUpTo (.punctuator ')') inputValue else return []

def field : Rule Field := do
  let description ← description
  let fieldName ← name
  let arguments ← arguments
  expect (.punctuator ':')
  let type ← typeExpr
  return { name := fieldName, description, arguments, type, directives := ← directives }

def enumValue : Rule EnumValue := do
  let description ← description
  let symbol ← name
  if symbol = "true" ∨ symbol = "false" ∨ symbol = "null" then malformed
  return { name := symbol, description, directives := ← directives }

/-- Items between braces, or none at all. -/
def body {α : Type} (item : Rule α) : Rule (List α) := do
  if ← accept (.punctuator '{') then someItemsUpTo (.punctuator '}') item else return []

def operation : Rule Operation := do
  match ← next with
  | .name "query" => return .query
  | .name "mutation" => return .mutation
  | .name "subscription" => return .subscription
  | _ => malformed

def root : Rule (Operation × String) := do
  let operation ← operation
  expect (.punctuator ':')
  return (operation, ← name)

def roots : Rule (List (Operation × String)) :=
  itemsUpTo (.punctuator '}') root

/-- The first root of each operation, in the order of the operations. -/
def firstRoots (roots : List (Operation × String)) : List (Operation × String) :=
  [Operation.query, .mutation, .subscription].filterMap fun operation =>
    roots.find? fun root => root.1 = operation

def schemaBlock : Rule SchemaBlock := do
  let directives ← directives
  expect (.punctuator '{')
  return { directives, roots := firstRoots (← roots) }

def scalar (description : Option String) : Rule Scalar := do
  let scalarName ← name
  return { name := scalarName, description, directives := ← directives }

def implements : Rule (List String) := do
  if ← accept (.name "implements") then separated (.punctuator '&') name else return []

/-- An object type or an interface, after its keyword. -/
def composite (description : Option String) : Rule Composite := do
  let typeName ← name
  let implements ← implements
  let directives ← directives
  return { name := typeName, description, implements, directives, fields := ← body field }

def union (description : Option String) : Rule Union := do
  let unionName ← name
  let directives ← directives
  let members ←
    if ← accept (.punctuator '=') then separated (.punctuator '|') name else pure []
  return { name := unionName, description, directives, members }

def enum (description : Option String) : Rule Enum := do
  let enumName ← name
  let directives ← directives
  return { name := enumName, description, directives, values := ← body enumValue }

def inputObject (description : Option String) : Rule InputObject := do
  let inputName ← name
  let directives ← directives
  return { name := inputName, description, directives, fields := ← body inputValue }

def location : Rule String := do
  let word ← name
  match Site.ofWord? word with
  | none => refuse
  | some site => return site.name

def directiveDefinition (description : Option String) : Rule DirectiveDefinition := do
  expect (.punctuator '@')
  let directiveName ← name
  let arguments ← arguments
  let repeatable ← accept (.name "repeatable")
  expect (.name "on")
  let locations ← separated (.punctuator '|') location
  return { name := directiveName, description, arguments, locations, repeatable }

/-- The definition of a type, after its keyword. -/
def typeDefinition (description : Option String) (keyword : String) : Rule Definition :=
  match keyword with
  | "scalar" => .scalar <$> scalar description
  | "type" => .object <$> composite description
  | "interface" => .interface <$> composite description
  | "union" => .union <$> union description
  | "enum" => .enum <$> enum description
  | "input" => .input <$> inputObject description
  | _ => malformed

/-- An addition to a definition, after the keyword `extend`. -/
def extension : Rule Definition := do
  let keyword ← name
  if keyword = "schema" then
    let _ ← directives
    if ← accept (.punctuator '{') then
      let _ ← roots
    return .other "schema extension" none
  else
    match ← typeDefinition none keyword with
    | .scalar added => return .other "type extension" (some added.name)
    | .object added | .interface added => return .other "type extension" (some added.name)
    | .union added => return .other "type extension" (some added.name)
    | .enum added => return .other "type extension" (some added.name)
    | .input added => return .other "type extension" (some added.name)
    | _ => malformed

def definition : Rule Definition := fun before =>
  let rule : Rule Definition := do
    let description ← description
    match ← name with
    | "schema" => unkept before.defect (.schema <$> schemaBlock)
    | "extend" => unkept before.defect extension
    | "directive" => .directive <$> directiveDefinition description
    | keyword => typeDefinition description keyword
  rule before

/-- Definitions to the end of the text, at least one. -/
def definitionsWithin : Nat → Rule (List Definition)
  | 0 => pure []
  | limit + 1 => do
    let first ← definition
    if (← peek) = none then return [first]
    return first :: (← definitionsWithin limit)

def document : Rule Document := do
  if (← peek) = none then malformed
  definitionsWithin (← limit)

end Grammar

/-- The document that a text writes. Integers too large for 64 bits are refused before the
text is read as a document. -/
def parse (source : String) : Except (Abort SchemaError) Document :=
  match IntegerScan.scan source with
  | .error (.outOfRange literal) => .error (.error (.integerRange literal))
  | .error _ => .error (.crash .scan)
  | .ok () =>
    let tokens := Token.lex source.toList
    match Grammar.document { tokens, limit := tokens.length } with
    | .error abort => .error abort
    | .ok (document, cursor) =>
      match cursor.defect with
      | some defect => .error (.crash defect)
      | none => .ok document

end SdlCompiler.Document
