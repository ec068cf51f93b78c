import SdlCompiler.Text.Split

/-!
# Command line arguments

The compiler has four options of its own. Any other argument that begins with two dashes is a
plugin flag, which is set aside before the rest is read; what remains are file patterns. An
option that takes a value takes the argument after it, unless the value follows a `=`. Arguments
that are no text are never plugin flags.
-/

namespace SdlCompiler.Command

inductive Setting where
  | logFilter
  | pluginPath
deriving DecidableEq, Repr

/-- An option of the compiler's own. -/
inductive Switch where
  | setting (s : Setting)
  | help
  | version
deriving DecidableEq, Repr

def Switch.ofName? : String → Option Switch
  | "log-filter" => some (.setting .logFilter)
  | "plugin-path" => some (.setting .pluginPath)
  | "help" => some .help
  | "version" => some .version
  | _ => none

/-- An argument, by its form. -/
inductive Form where
  /-- Two dashes and nothing else. -/
  | separator
  | long (name : String) (value : Option String)
  | short (first : Char)
  | plain
deriving DecidableEq, Repr

def form (argument : String) : Form :=
  match argument.toList with
  | ['-', '-'] => .separator
  | '-' :: '-' :: text =>
    match Text.splitOnce ['='] text with
    | some (name, value) => .long (.ofList name) (some (.ofList value))
    | none => .long (.ofList text) none
  | '-' :: first :: _ => .short first
  | _ => .plain

/-! ## Plugin flags -/

section

variable {α : Type} (text? : α → Option String)

/-- Adds an argument to the compiler's own. -/
def consOwn (argument : α) (split : List α × List String) : List α × List String :=
  (argument :: split.1, split.2)

/-- Adds the text of an argument to the plugin flags. -/
def consFlag (text : String) (split : List α × List String) : List α × List String :=
  (split.1, text :: split.2)

/-- Splits arguments of which the first is the value of an option, or is not. Not every argument is
text: `text?` gives the text of those that are. -/
def splitFrom : Bool → List α → List α × List String
  | _, [] => ([], [])
  | true, argument :: rest => consOwn argument (splitFrom false rest)
  | false, argument :: rest =>
    match text? argument with
    | none => consOwn argument (splitFrom false rest)
    | some text =>
      match form text with
      | .separator => (argument :: rest, [])
      | .long name value =>
        match Switch.ofName? name with
        | none => consFlag text (splitFrom false rest)
        | some (.setting _) => consOwn argument (splitFrom value.isNone rest)
        | some _ => consOwn argument (splitFrom false rest)
      | .short _ | .plain => consOwn argument (splitFrom false rest)

/-- The compiler's own arguments and the plugin flags, each in their order. -/
def splitArguments (arguments : List α) : List α × List String :=
  splitFrom text? false arguments

end

/-! ## Options and patterns -/

/-- Why there is nothing to run. -/
inductive UsageError where
  | displayHelp
  | displayVersion
  | unknownArgument
  | invalidValue
  | argumentConflict
  | tooManyValues
deriving DecidableEq, Repr

structure Arguments where
  patterns : List String := []
  logFilter : Option String := none
  pluginPath : List String := []
  pluginFlags : List String := []
deriving DecidableEq, Repr

/-- The directories of a path list, none of which may be empty. -/
def pathList (text : String) : Except UsageError (List String) :=
  let directories := (Text.split ':' text.toList).map String.ofList
  if directories.contains "" then .error .invalidValue else .ok directories

/-- A setting whose value is not yet part of the arguments, if it is there at all. -/
abbrev Pending := Option (Setting × Option String)

/-- Makes a pending setting part of the arguments. -/
def settle (args : Arguments) : Pending → Except UsageError Arguments
  | none => .ok args
  | some (_, none) => .error .invalidValue
  | some (.logFilter, some value) =>
    if args.logFilter.isSome then .error .argumentConflict
    else .ok { args with logFilter := some value }
  | some (.pluginPath, some value) => do
    return { args with pluginPath := args.pluginPath ++ (← pathList value) }

/-- Reads arguments that follow others. A pending setting without a value takes a plain argument
as its value. -/
def readArguments (args : Arguments) (pending : Pending) :
    List String → Except UsageError Arguments
  | [] => settle args pending
  | argument :: rest =>
    match form argument with
    | .separator => do
      let args ← settle args pending
      return { args with patterns := args.patterns ++ rest }
    | .long name value =>
      match Switch.ofName? name, value with
      | none, _ => .error .unknownArgument
      | some .help, none => do
        let _ ← settle args pending
        .error .displayHelp
      | some .version, none => do
        let _ ← settle args pending
        .error .displayVersion
      | some .help, some _ | some .version, some _ => .error .tooManyValues
      | some (.setting setting), none => do
        readArguments (← settle args pending) (some (setting, none)) rest
      | some (.setting setting), some value => do
        let args ← settle args pending
        readArguments (← settle args (some (setting, some value))) none rest
    | .short first => do
      if first = 'h' then
        let _ ← settle args pending
        .error .displayHelp
      else if first = 'V' then
        let _ ← settle args pending
        .error .displayVersion
      else .error .unknownArgument
    | .plain =>
      match pending with
      | some (setting, none) => readArguments args (some (setting, some argument)) rest
      | _ => do
        let args ← settle args pending
        readArguments { args with patterns := args.patterns ++ [argument] } none rest

/-- Reads a command line, all of which is text. The plugin path comes from the environment if the
command line has none. -/
def parseArguments (arguments : List String) (environmentPath : Option String) :
    Except UsageError Arguments := do
  let (own, flags) := splitArguments some arguments
  let args ← readArguments {} none own
  let args := { args with pluginFlags := flags }
  match environmentPath with
  | none => return args
  | some text =>
    if args.pluginPath.isEmpty then return { args with pluginPath := ← pathList text }
    else return args

end SdlCompiler.Command
