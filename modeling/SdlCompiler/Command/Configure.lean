import SdlCompiler.Command.Arguments
import SdlCompiler.Command.PluginFlag
import SdlCompiler.Compiler.Run
import SdlCompiler.Pattern.Expand

/-!
# From arguments to a configuration

Expands the file patterns, reads the plugin flags and puts together the search path. What looks
like a mistake but does no harm gives a warning.
-/

namespace SdlCompiler.Command

/-- The variables of the environment that a run depends on. -/
structure Environment where
  path : Option String := none
  pluginPath : Option String := none
  /-- The directory that holds the directory of installed programs. -/
  installHome : Option String := none
  home : Option String := none
  /-- The home directory that the system knows for the user. -/
  accountHome : Option String := none
  logFilter : Option String := none
  colorForce : Option String := none
deriving Repr

inductive Warning where
  | noFiles (pattern : String)
  | repeatedPlugin (name : String)
  | ignoredFlag (flag : String)
deriving DecidableEq, Repr

namespace Warning

def message : Warning → String
  | noFiles _ => "pattern matches no files"
  | repeatedPlugin _ => "plugin given more than once, the last flag wins"
  | ignoredFlag _ => "ignoring argument that is not a --<name>_out= plugin flag"

/-- What a warning is about, with the name of the field that holds it. -/
def subject : Warning → String × String
  | noFiles pattern => ("pattern", pattern)
  | repeatedPlugin name => ("plugin", name)
  | ignoredFlag flag => ("flag", flag)

/-- The names of the fields of a warning. The message is one of them. -/
def fields (w : Warning) : List String :=
  ["message", w.subject.1]

def text (w : Warning) : String :=
  w.message ++ " " ++ w.subject.1 ++ "=" ++ w.subject.2

end Warning

/-- The files of some patterns, up to the first that is no pattern, with the warnings. -/
def expandPatterns (tree : FileTree) :
    List String → List Warning × Except Compiler.CompilerError (List String)
  | [] => ([], .ok [])
  | pattern :: rest =>
    match Pattern.expand tree pattern with
    | .error cause => ([], .error (.pattern pattern cause))
    | .ok files =>
      let (warnings, others) := expandPatterns tree rest
      (if files.isEmpty then .noFiles pattern :: warnings else warnings,
        others.map fun others => files ++ others)

/-- Adds the invocation of a flag to those of the flags before it. -/
def addFlag (plugins : Compiler.Invocations) (flag : String) :
    Compiler.Invocations × List Warning :=
  match pluginFlag? flag with
  | none => (plugins, [.ignoredFlag flag])
  | some invocation =>
    let name := invocation.name
    (plugins.insert name invocation,
      if (plugins.lookup name).isSome then [.repeatedPlugin name] else [])

/-- Adds the invocations of some flags to those of the flags before them. -/
def addFlags (plugins : Compiler.Invocations) :
    List String → Compiler.Invocations × List Warning
  | [] => (plugins, [])
  | flag :: rest =>
    let (plugins, first) := addFlag plugins flag
    let (plugins, others) := addFlags plugins rest
    (plugins, first ++ others)

/-- The invocations of all flags. -/
def invocations (flags : List String) : Compiler.Invocations × List Warning :=
  addFlags [] flags

/-- The home directory of the user. An empty variable counts as none. -/
def Environment.homeDirectory? (env : Environment) : Option String :=
  match env.home with
  | none | some "" => env.accountHome
  | some home => some home

/-- Where plugins are looked for: the directories of the path first, then those that were given
for plugins, then the one where installed programs are. -/
def searchPath (env : Environment) (pluginPath : List String) : List String :=
  let path := (env.path.map Plugin.directories).getD []
  let installed := env.installHome.or (env.homeDirectory?.map fun home => Path.join home ".cargo")
  path ++ pluginPath ++ (installed.map fun directory => Path.join directory "bin").toList

/-- The configuration that arguments ask for, with the warnings. -/
def configure (tree : FileTree) (env : Environment) (args : Arguments) :
    List Warning × Except Compiler.CompilerError Compiler.Configuration :=
  match expandPatterns tree args.patterns with
  | (warnings, .error e) => (warnings, .error e)
  | (warnings, .ok files) =>
    let (plugins, more) := invocations args.pluginFlags
    (warnings ++ more, .ok { files, plugins, searchPath := searchPath env args.pluginPath })

end SdlCompiler.Command
