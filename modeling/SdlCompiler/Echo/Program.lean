import SdlCompiler.Echo.Generate
import SdlCompiler.Plugin.Exchange
import SdlCompiler.Plugin.Host

/-!
# The echo generator as a program
-/

namespace SdlCompiler.Echo

/-- The program, in a file that begins with the given bytes. -/
def program (image : List UInt8) : Plugin.Program where
  image
  execute path input :=
    match Plugin.exchange { bytes := input } {} generate with
    | .ok output => { output }
    | .error e =>
      { status := .exited 1, diagnostics := (path ++ ": " ++ e.message ++ "\n").toUTF8.toList }

end SdlCompiler.Echo
