import SdlCompiler.Numeric.Fixed
import SdlCompiler.Schema.Basic
import SdlCompiler.Text.Quoted

/-!
# Types and values as text

The way a schema writes them. Floats have six decimal places.
-/

namespace SdlCompiler.Schema

def TypeRef.text : TypeRef → String
  | named false type => type.name
  | named true type => type.name ++ "!"
  | list false element => "[" ++ element.text ++ "]"
  | list true element => "[" ++ element.text ++ "]!"

mutual

def valueText : Value → String
  | .variable name => "$" ++ name
  | .int n => toString n.toInt
  | .float x => String.ofList x.fixed
  | .string text => String.ofList (Text.Quoted.encode text.toList)
  | .boolean true => "true"
  | .boolean false => "false"
  | .null => "null"
  | .enum symbol => symbol
  | .list items => "[" ++ ", ".intercalate (itemTexts items) ++ "]"
  | .object fields => "\x7b" ++ ", ".intercalate (fieldTexts fields) ++ "\x7d"

def itemTexts : List Value → List String
  | [] => []
  | item :: rest => valueText item :: itemTexts rest

def fieldTexts : List (String × Value) → List String
  | [] => []
  | (name, value) :: rest => (name ++ ": " ++ valueText value) :: fieldTexts rest

end

end SdlCompiler.Schema
