import SdlCompiler.Output.Apply
import SdlCompiler.Pattern.Basic
import SdlCompiler.Plugin.Run
import SdlCompiler.Schema.Error

/-!
# Errors of a run

Each has a text, and some have a hint on what to do about them.
-/

namespace SdlCompiler.Compiler

inductive CompilerError where
  | pattern (pattern : String) (cause : Pattern.PatternError)
  | sourceRead (path : String) (cause : SystemError)
  | build (path : String) (cause : SchemaError)
  | plugin (name : String) (cause : Plugin.PluginError)
  | output (name : String) (cause : Output.OutputError)
deriving DecidableEq, Repr

namespace CompilerError

def message : CompilerError → String
  | pattern text cause => "invalid file pattern `" ++ text ++ "`: " ++ cause.message
  | sourceRead path cause => "could not read " ++ path ++ ": " ++ cause.message
  | build path cause => path ++ ": " ++ cause.message
  | plugin name cause => "plugin `" ++ name ++ "`: " ++ cause.message
  | output name cause => "plugin `" ++ name ++ "` output: " ++ cause.message

def hint? : CompilerError → Option String
  | plugin name (.spawn executable cause) =>
    match cause.kind with
    | .notFound =>
      some ("install " ++ executable ++ " somewhere on your PATH or pass its directory with " ++
        "--plugin-path to use --" ++ name ++ "_out")
    | .permissionDenied => some "make sure the plugin file is executable"
    | _ => none
  | plugin _ (.response _) =>
    some "the plugin may have printed something other than its response to stdout"
  | output _ (.missingName _ _) | output _ (.missingPredecessor _) | output _ (.outside _ _) =>
    some "this is a bug in the plugin, not in your schema"
  | _ => none

end CompilerError

end SdlCompiler.Compiler
