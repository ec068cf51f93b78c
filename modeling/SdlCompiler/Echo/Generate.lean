import SdlCompiler.Echo.Sdl
import SdlCompiler.Path
import SdlCompiler.Wire.Protocol

/-!
# The echo generator

Writes each file of a request that is to be generated back as text, next to where it came from.
-/

namespace SdlCompiler.Echo

/-- What the names of schema files end in. -/
def extension : List Char := ".graphql".toList

/-- The name of a schema file without its extension, if it has one. -/
def stem (name : String) : String :=
  let text := name.toList
  if extension.isSuffixOf text then .ofList (text.take (text.length - extension.length)) else name

/-- The name of the file to write for a schema file. It is a relative path without steps to a
parent directory, whatever the name of the schema file. -/
def outputName (name : String) : String :=
  Path.ofPieces (Path.names (stem name)) ++ ".echo.graphql"

def edit (file : Wire.File) : Except String Wire.Edit :=
  match fileText? file with
  | some content => .ok { name := outputName file.name, content }
  | none => .error (file.name ++ ": a field or argument has no type")

def generate (request : Wire.Request) : Except String (List Wire.Edit) :=
  (request.files.filter fun file => request.generate.contains file.name).mapM edit

end SdlCompiler.Echo
