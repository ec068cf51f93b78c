import SdlCompiler.Location
import SdlCompiler.Numeric.Fixed
import SdlCompiler.Text.BlockString
import SdlCompiler.Text.Quoted
import SdlCompiler.Wire.Descriptor

/-!
# Schema files as text

The text of a file as it comes over the wire: the schema block, then objects, input objects,
interfaces, unions, directive definitions, scalars and enums, with an empty line between two of
them. There is no text for a file in which a field or an argument lacks its type. What else may
be missing has a text: a missing value is `null`, and a location without a name is left out.
-/

namespace SdlCompiler.Echo

/-! ## Types and values -/

def typeText? : Wire.TypeRef → Option String
  | .unset _ | .untypedList _ => none
  | .named nonNull name => some (if nonNull then name ++ "!" else name)
  | .list nonNull element => do
    let text := "[" ++ (← typeText? element) ++ "]"
    return if nonNull then text ++ "!" else text

mutual

def valueText : Wire.Value → String
  | .unset | .null => "null"
  | .variable name => "$" ++ name
  | .int n => toString n.toInt
  | .float x => String.ofList x.fixed
  | .string text => String.ofList (Text.Quoted.encode text.toList)
  | .boolean true => "true"
  | .boolean false => "false"
  | .enum symbol => symbol
  | .list items => "[" ++ ", ".intercalate (itemTexts items) ++ "]"
  | .object fields => "\x7b" ++ ", ".intercalate (fieldTexts fields) ++ "\x7d"

def itemTexts : List Wire.Value → List String
  | [] => []
  | item :: rest => valueText item :: itemTexts rest

def fieldTexts : List (String × Option Wire.Value) → List String
  | [] => []
  | (name, none) :: rest => (name ++ ": null") :: fieldTexts rest
  | (name, some value) :: rest => (name ++ ": " ++ valueText value) :: fieldTexts rest

end

/-! ## Parts of definitions -/

def indent : String := "    "

/-- A description on lines of its own before what it describes. -/
def descriptionText (indent description : String) : String :=
  String.ofList (Text.BlockString.write indent.toList description.toList)

def argumentText (a : Wire.Argument) : String :=
  a.name ++ ": " ++ valueText (a.value.getD .unset)

def directiveText (d : Wire.Directive) : String :=
  let arguments :=
    if d.arguments.isEmpty then "" else "(" ++ ", ".intercalate (d.arguments.map argumentText) ++ ")"
  " @" ++ d.name ++ arguments

def directivesText (ds : List Wire.Directive) : String :=
  String.join (ds.map directiveText)

/-- An argument or an input field, without its description. -/
def inputValueText? (v : Wire.InputValue) : Option String := do
  let type ← typeText? (← v.type)
  let default := (v.default.map fun value => " = " ++ valueText value).getD ""
  return v.name ++ ": " ++ type ++ default ++ directivesText v.directives

def argumentsText? (arguments : List Wire.InputValue) : Option String := do
  let texts ← arguments.mapM inputValueText?
  return if arguments.isEmpty then "" else "(" ++ ", ".intercalate texts ++ ")"

def fieldText? (f : Wire.Field) : Option String := do
  let arguments ← argumentsText? f.arguments
  let type ← typeText? (← f.type)
  return descriptionText indent f.description ++ indent ++ f.name ++ arguments ++ ": " ++ type ++
    directivesText f.directives ++ "\n"

def inputFieldText? (v : Wire.InputValue) : Option String := do
  return descriptionText indent v.description ++ indent ++ (← inputValueText? v) ++ "\n"

def implementsText (interfaces : List Wire.Interface) : String :=
  if interfaces.isEmpty then ""
  else " implements " ++ " & ".intercalate (interfaces.map Wire.Interface.name)

/-- The lines of a definition between braces, or the end of a line where there are none. -/
def bodyText (lines : List String) : String :=
  if lines.isEmpty then "\n" else " \x7b\n" ++ String.join lines ++ "\x7d\n"

/-! ## Definitions -/

def rootText (operation : String) (root : Option Wire.Object) : String :=
  (root.map fun object => indent ++ operation ++ ": " ++ object.name ++ "\n").getD ""

def rootsText (s : Wire.Roots) : String :=
  "schema" ++ directivesText s.directives ++ " \x7b\n" ++ rootText "query" s.query ++
    rootText "mutation" s.mutation ++ rootText "subscription" s.subscription ++ "\x7d\n"

/-- An object or an interface. -/
def compositeText? (keyword name description : String) (implements : List Wire.Interface)
    (directives : List Wire.Directive) (fields : List Wire.Field) : Option String := do
  let lines ← fields.mapM fieldText?
  return descriptionText "" description ++ keyword ++ " " ++ name ++ implementsText implements ++
    directivesText directives ++ bodyText lines

def objectText? (o : Wire.Object) : Option String :=
  compositeText? "type" o.name o.description o.implements o.directives o.fields

def interfaceText? (i : Wire.Interface) : Option String :=
  compositeText? "interface" i.name i.description i.implements i.directives i.fields

def inputObjectText? (i : Wire.InputObject) : Option String := do
  let lines ← i.fields.mapM inputFieldText?
  return descriptionText "" i.description ++ "input " ++ i.name ++ directivesText i.directives ++
    bodyText lines

def unionText (u : Wire.Union) : String :=
  let members :=
    if u.members.isEmpty then "" else " = " ++ " | ".intercalate (u.members.map Wire.Name.text)
  descriptionText "" u.description ++ "union " ++ u.name ++ directivesText u.directives ++
    members ++ "\n"

/-- The location with a number, if there is one. -/
def location? : Wire.Location → Option Location
  | .unset => none
  | .executable number =>
    (ExecutableLocation.all.find? fun place => number.toInt == place.number).map .executable
  | .typeSystem number =>
    (TypeSystemLocation.all.find? fun place => number.toInt == place.number).map .typeSystem

def directiveDefinitionText? (d : Wire.DirectiveDefinition) : Option String := do
  let arguments ← argumentsText? d.arguments
  let locations := (d.locations.filterMap location?).map Location.name
  return descriptionText "" d.description ++ "directive @" ++ d.name ++ arguments ++
    (if d.repeatable then " repeatable" else "") ++ " on " ++ " | ".intercalate locations ++ "\n"

def scalarText (s : Wire.Symbol) : String :=
  descriptionText "" s.description ++ "scalar " ++ s.name ++ directivesText s.directives ++ "\n"

def enumValueText (s : Wire.Symbol) : String :=
  descriptionText indent s.description ++ indent ++ s.name ++ directivesText s.directives ++ "\n"

def enumText (e : Wire.Enum) : String :=
  descriptionText "" e.description ++ "enum " ++ e.name ++ directivesText e.directives ++
    bodyText (e.values.map enumValueText)

/-! ## Files -/

/-- The definitions of a file, in the order in which they are written. -/
def blocks? (file : Wire.File) : Option (List String) := do
  let objects ← file.objects.mapM objectText?
  let inputs ← file.inputs.mapM inputObjectText?
  let interfaces ← file.interfaces.mapM interfaceText?
  let directives ← file.directives.mapM directiveDefinitionText?
  return (file.schema.map rootsText).toList ++ objects ++ inputs ++ interfaces ++
    file.unions.map unionText ++ directives ++ file.scalars.map scalarText ++
    file.enums.map enumText

def fileText? (file : Wire.File) : Option String := do
  return "\n".intercalate (← blocks? file)

end SdlCompiler.Echo
