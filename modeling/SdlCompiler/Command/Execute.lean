import SdlCompiler.Command.Configure
import SdlCompiler.Command.LogFilter

/-!
# The command line program

What the program prints and leaves behind for a command line, an environment and a file tree.
-/

namespace SdlCompiler.Command

/-- What the program prints on its standard output. -/
inductive Printed where
  | nothing
  | help
  | text (text : String)
deriving DecidableEq, Repr

/-- What the program has done by its end. -/
structure Result where
  exitCode : Nat
  printed : Printed := .nothing
  /-- What it prints on its standard error. A usage error prints something of its own there. -/
  diagnostics : List String := []
  tree : FileTree
  launches : List Plugin.Launch := []

/-- Ends a color. -/
def colorEnd : String := "\x1b[0m"

/-- The text with what starts a color put after each end of a color in it. -/
def restartColor (start text : List Char) : List Char :=
  match text with
  | [] => []
  | c :: rest =>
    if colorEnd.toList.isPrefixOf (c :: rest) then
      colorEnd.toList ++ start ++ restartColor start (rest.drop (colorEnd.length - 1))
    else c :: restartColor start rest
termination_by text.length

/-- The text with the given color, if colors are on. Colors that end inside the text do not end
this one. -/
def colored (isOn : Bool) (code text : String) : String :=
  let start := "\x1b[" ++ code ++ "m"
  if isOn then start ++ .ofList (restartColor start.toList text.toList) ++ colorEnd else text

/-- Colors are forced on. -/
def Environment.hasColors (env : Environment) : Bool :=
  match env.colorForce with
  | none | some "0" => false
  | some _ => true

/-- The lines for an error. -/
def errorLines (isColored : Bool) (e : Compiler.CompilerError) : List String :=
  colored isColored "91" ("error: " ++ e.message) ::
    (e.hint?.map fun hint => colored isColored "94" ("hint: " ++ hint)).toList

/-- The target of the messages about a configuration. -/
def configurationTarget : String := "graphqlc::config"

/-- A warning without the time at which it is given. -/
def warningLine (w : Warning) : String :=
  "WARN " ++ configurationTarget ++ ": " ++ w.text

def ignoredLine (bad : String × DirectiveError) : String :=
  "ignoring `" ++ bad.1 ++ "`: " ++ bad.2.message

def versionText : String :=
  "graphqlc " ++ Wire.Version.compiler.text

/-- What ends the program before there is anything to run. -/
def usageResult (tree : FileTree) : UsageError → Result
  | .displayHelp => { exitCode := 0, printed := .help, tree }
  | .displayVersion => { exitCode := 0, printed := .text (versionText ++ "\n"), tree }
  | _ => { exitCode := 2, tree }

/-- Runs the program on arguments that were read. -/
def executeArguments (host : Plugin.Host) (env : Environment) (args : Arguments) :
    Except Defect Result := do
  let (filter, bad) ← LogFilter.read ((args.logFilter.or env.logFilter).getD "")
  let (warnings, configured) := configure host.tree env args
  let shown := warnings.filter fun w => filter.shows configurationTarget w.fields .warn
  let start := bad.map ignoredLine ++ shown.map warningLine
  let failed (e : Compiler.CompilerError) := start ++ errorLines env.hasColors e
  match configured with
  | .error e => return { exitCode := 1, diagnostics := failed e, tree := host.tree }
  | .ok config =>
    let outcome ← Compiler.run host config
    match outcome.result with
    | .ok () =>
      return { exitCode := 0, diagnostics := start, tree := outcome.tree,
               launches := outcome.launches }
    | .error e =>
      return { exitCode := 1, diagnostics := failed e, tree := outcome.tree,
               launches := outcome.launches }

/-- Runs the program on a command line. -/
def execute (host : Plugin.Host) (env : Environment) (arguments : List String) :
    Except Defect Result :=
  match parseArguments arguments env.pluginPath with
  | .error e => .ok (usageResult host.tree e)
  | .ok args => executeArguments host env args

end SdlCompiler.Command
