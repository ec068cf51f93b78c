import SdlCompiler.Command.Execute
import SdlCompiler.Echo.Program

/-!
# The program

Loads the files below the current directory and the names of the plugins on the search path,
executes the command line on them, and writes back what has changed. The one generator that can
be run is the echo generator, which is part of the program.
-/

namespace SdlCompiler.Command

def helpText : String :=
  "Compiles GraphQL schema files and runs code generator plugins on them.\n\n" ++
  "Usage: graphqlc [OPTIONS] [PATTERN]...\n\n" ++
  "Options:\n" ++
  "  --log-filter <FILTER>  Set the log filter\n" ++
  "  --plugin-path <DIR>    Also look for plugins in these directories\n" ++
  "  -h, --help             Print help\n" ++
  "  -V, --version          Print version\n\n" ++
  "Plugins:\n" ++
  "  --<NAME>_out=[<PARAMETER>:]<OUTPUT_DIR>  Run graphqlc-gen-<NAME> and write its output " ++
  "below OUTPUT_DIR\n"

def readEnvironment : IO Environment := do
  return { path := ← IO.getEnv "PATH", pluginPath := ← IO.getEnv "GRAPHQLC_PLUGIN_PATH",
           installHome := ← IO.getEnv "CARGO_HOME", home := ← IO.getEnv "HOME",
           logFilter := ← IO.getEnv "RUST_LOG", colorForce := ← IO.getEnv "CLICOLOR_FORCE" }

/-- The tree with a directory and those above it. -/
def withDirectory (tree : FileTree) (place : Place) : FileTree :=
  (List.range (place.length + 1)).foldl
    (fun tree n =>
      if (tree.entry? (place.take n)).isSome then tree else tree.set (place.take n) .directory)
    tree

/-- Loads what is below a directory. A link is taken for what it leads to. -/
partial def loadBelow (tree : FileTree) (place : Place) : IO FileTree := do
  let directory ← IO.FS.realPath (Plugin.placeText place)
  let mut tree := withDirectory tree place
  for entry in ← directory.readDir do
    let below := place ++ [entry.fileName]
    if ← entry.path.isDir then
      tree ← loadBelow tree below
    else
      let content ← try IO.FS.readBinFile entry.path catch _ => pure .empty
      tree := tree.set below (.file content.toList FileTree.defaultMode)
  return tree

/-- Loads the names of the plugins in a directory of the search path. -/
def loadPlugins (host : Plugin.Host) (directory : String) : IO Plugin.Host := do
  let absolute := Path.join (Plugin.placeText host.tree.current) directory
  let entries ← try (← IO.FS.realPath absolute).readDir catch _ => pure #[]
  let mut host := host
  for entry in entries do
    if entry.fileName.startsWith (Plugin.executableName "") then
      let parent := Path.names absolute
      let place := parent ++ [entry.fileName]
      let tree := (withDirectory host.tree parent).set place (.file [] 0o755)
      host := { host with tree }
      if entry.fileName = Plugin.executableName "echo" then
        host := { host with programs := (place, Echo.program []) :: host.programs }
  return host

def loadHost (env : Environment) (arguments : List String) : IO Plugin.Host := do
  let current := Path.names (← IO.currentDir).toString
  let tree ← loadBelow { current } current
  let pluginPath :=
    match parseArguments arguments env.pluginPath with
    | .ok args => args.pluginPath
    | .error _ => []
  let host : Plugin.Host :=
    { tree, home := (env.home.or env.accountHome).getD "",
      commandPath := (env.path.map Plugin.directories).getD [] }
  ((searchPath env pluginPath).flatMap Plugin.directories).foldlM loadPlugins host

/-- Writes the entries of a tree that were not there before. -/
def store (before after : FileTree) : IO Unit := do
  for (place, entry) in after.entries do
    if before.entry? place != some entry then
      let path := Plugin.placeText place
      match entry with
      | .directory => IO.FS.createDirAll path
      | .file content _ => IO.FS.writeBinFile path content.toByteArray

end SdlCompiler.Command

open SdlCompiler.Command in
def main (arguments : List String) : IO UInt32 := do
  let env ← readEnvironment
  let host ← loadHost env arguments
  match execute host env arguments with
  | .error _ =>
    IO.eprintln "internal error"
    return 101
  | .ok result =>
    store host.tree result.tree
    match result.printed with
    | .nothing => pure ()
    | .help => IO.print helpText
    | .text text => IO.print text
    result.diagnostics.forM IO.eprintln
    if result.exitCode = 2 then IO.eprintln "error: the command line cannot be read; see --help"
    return UInt32.ofNat result.exitCode
