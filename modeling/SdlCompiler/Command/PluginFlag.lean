import SdlCompiler.Compiler.Run
import SdlCompiler.Text.Split

/-!
# Plugin flags

A flag `--<name>_out=[<parameter>:]<directory>` asks for a plugin to be run.
-/

namespace SdlCompiler.Command

/-- What ends the name of the plugin in a flag. -/
def flagMarker : List Char := "_out=".toList

/-- The parameter and the directory in what follows the marker. -/
def splitDestination (text : List Char) : List Char × List Char :=
  (Text.splitOnce [':'] text).getD ([], text)

/-- The invocation that a flag asks for. Dashes before the name do not belong to it, and a name
cannot be empty. -/
def pluginFlag? (flag : String) : Option Compiler.Invocation := do
  let (name, destination) ← Text.splitOnce flagMarker (flag.toList.dropWhile (· = '-'))
  if name = [] then none
  else
    let (parameter, directory) := splitDestination destination
    return { name := .ofList name, parameter := .ofList parameter,
             outputDirectory := .ofList directory }

end SdlCompiler.Command
