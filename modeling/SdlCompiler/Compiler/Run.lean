import SdlCompiler.Compiler.Error
import SdlCompiler.FileTree.Access
import SdlCompiler.Schema.Compile
import SdlCompiler.Wire.OfSchema

/-!
# A run of the compiler

All schema files are compiled first. Only then the plugins run, one after the other, each on a
request with all of the files; what a plugin answers is written before the next one starts. The
first failure ends the run, and what was written before it stays.
-/

namespace SdlCompiler.Compiler

/-- How a plugin is to be run. -/
structure Invocation where
  name : String
  parameter : String
  outputDirectory : String
deriving DecidableEq, Repr

/-- Invocations by the names of their plugins. A name that is given again keeps its position
and gets the new invocation. -/
abbrev Invocations := List (String × Invocation)

def Invocations.insert (name : String) (invocation : Invocation) : Invocations → Invocations
  | [] => [(name, invocation)]
  | (n, i) :: rest =>
    if n = name then (n, invocation) :: rest else (n, i) :: insert name invocation rest

structure Configuration where
  /-- The paths of the schema files. -/
  files : List String := []
  plugins : Invocations := []
  searchPath : List String := []
deriving Repr

/-- What a run has done by its end. -/
structure Outcome where
  tree : FileTree
  /-- The programs that were started, in order. -/
  launches : List Plugin.Launch := []
  result : Except CompilerError Unit := .ok ()

/-- Compiles the schema file at a path, which is also its name. -/
def compileFile (tree : FileTree) (path : String) :
    Except (Abort CompilerError) Schema.File := do
  let source ← (tree.readText path).mapError fun cause => .error (.sourceRead path cause)
  (Schema.compile path source).mapError (Abort.map (.build path))

/-- Compiles schema files up to the first failure. -/
def compileFiles (tree : FileTree) (paths : List String) :
    Except (Abort CompilerError) (List Schema.File) :=
  paths.mapM (compileFile tree)

/-- Runs one plugin and writes what it answers. -/
def runPlugin (host : Plugin.Host) (searchPath : List String) (files : List Wire.File)
    (name : String) (invocation : Invocation) : Outcome :=
  let request := Wire.Request.ofFiles .compiler invocation.parameter files
  let (launch, answer) := Plugin.run host searchPath name request
  let launches := launch.toList
  match answer with
  | .error cause => { tree := host.tree, launches, result := .error (.plugin name cause) }
  | .ok response =>
    let (tree, applied) := Output.apply invocation.outputDirectory host.tree response.edits
    { tree, launches, result := applied.mapError (.output name) }

/-- Runs plugins up to the first failure. -/
def runPlugins (host : Plugin.Host) (searchPath : List String) (files : List Wire.File) :
    Invocations → Outcome
  | [] => { tree := host.tree }
  | (name, invocation) :: rest =>
    let first := runPlugin host searchPath files name invocation
    match first.result with
    | .error _ => first
    | .ok () =>
      let others := runPlugins { host with tree := first.tree } searchPath files rest
      { others with launches := first.launches ++ others.launches }

/-- Compiles the files of a configuration and runs its plugins on them. -/
def run (host : Plugin.Host) (config : Configuration) : Except Defect Outcome :=
  match compileFiles host.tree config.files with
  | .error (.error e) => .ok { tree := host.tree, result := .error e }
  | .error (.crash defect) => .error defect
  | .ok files => do
    let files ← files.mapM Wire.File.ofSchema
    return runPlugins host config.searchPath files config.plugins

end SdlCompiler.Compiler
