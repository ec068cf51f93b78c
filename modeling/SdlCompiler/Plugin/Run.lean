import SdlCompiler.Plugin.Host
import SdlCompiler.Text.Utf8
import SdlCompiler.Wire.Protocol

/-!
# The compiler's side of an exchange

Finds the program of a plugin on the search path, sends it a request and reads its response. Of
several things that went wrong, a bad exit status is reported before all that concerns the
response.
-/

namespace SdlCompiler.Plugin

/-- Why a plugin did not answer. -/
inductive PluginError where
  | spawn (executable : String) (cause : SystemError)
  | writeRequest (executable : String) (cause : SystemError)
  | wait (executable : String) (cause : SystemError)
  | exit (executable : String) (status : ExitStatus) (diagnostics : String)
  | response (executable : String)
  | reported (executable text : String)
deriving DecidableEq, Repr

namespace PluginError

/-- The text of an error. What is wrong with a response that cannot be decoded is not told. -/
def message : PluginError → String
  | spawn executable cause => "could not run " ++ executable ++ ": " ++ cause.message
  | writeRequest executable cause =>
    "could not send the request to " ++ executable ++ ": " ++ cause.message
  | wait executable cause => "could not wait for " ++ executable ++ ": " ++ cause.message
  | exit executable status diagnostics =>
    executable ++ " failed with " ++ status.text ++ ":\n" ++ diagnostics
  | response executable => executable ++ " returned an invalid response"
  | reported executable text => executable ++ ": " ++ text

end PluginError

/-- The file name of a plugin's program. -/
def executableName (name : String) : String :=
  "graphqlc-gen-" ++ name

/-! ## Search -/

/-- The directories that an entry of the search path names. -/
def directories (entry : String) : List String :=
  (Text.split ':' entry.toList).map String.ofList

/-- A directory with `~` at its front replaced. -/
def expandHome (home directory : String) : String :=
  match Path.components directory with
  | .normal "~" :: rest =>
    let text : Path.Component → String
      | .normal name => name
      | .parent => ".."
      | .current => "."
      | .root => "/"
    (rest.map text).foldl Path.join home
  | _ => directory

/-- The directory as a path from the root. -/
def placeText (place : Place) : String :=
  "/" ++ Path.ofPieces place

/-- The paths where a program may be, for one entry of the search path. A program named with a
directory is looked for from the current directory, whatever the entry. -/
def candidates (host : Host) (executable entry : String) : List String :=
  if 1 < (Path.components executable).length then
    [Path.join (placeText host.tree.current) executable]
  else
    (directories entry).map fun directory =>
      Path.join (expandHome host.home directory) executable

/-- The path of a plugin's program. -/
def find (host : Host) (searchPath : List String) (name : String) : Except PluginError String :=
  let executable := executableName name
  match (searchPath.flatMap (candidates host executable)).find? host.isRunnable with
  | some path => .ok path
  | none => .error (.spawn executable (.described .notFound "not found on the plugin search path"))

/-! ## Runs -/

/-- A program that was started, and the bytes it was sent. -/
structure Launch where
  program : Place
  request : List UInt8
deriving DecidableEq, Repr

/-- Why a program was not sent its request. A program may end without reading all of its input,
which is no fault. -/
def Execution.sendFault? (execution : Execution) : Option SystemError :=
  execution.inputFault.filter (·.kind ≠ .brokenPipe)

/-- What a program's end says about its response. -/
def readResponse (executable : String) (execution : Execution) :
    Except PluginError Wire.Response :=
  match execution.waitFault with
  | some cause => .error (.wait executable cause)
  | none =>
    if !execution.status.isSuccess then
      .error (.exit executable execution.status
        (String.ofList (Text.Utf8.decodeLossy execution.diagnostics)))
    else
      match execution.sendFault? with
      | some cause => .error (.writeRequest executable cause)
      | none =>
        match (Wire.Message.decode? execution.output : Option Wire.Response) with
        | none => .error (.response executable)
        | some response =>
          if response.error = "" then .ok response
          else .error (.reported executable response.error)

/-- Runs a plugin on a request. The first part of the result tells which program was started, if
one was. -/
def run (host : Host) (searchPath : List String) (name : String) (request : Wire.Request) :
    Option Launch × Except PluginError Wire.Response :=
  let executable := executableName name
  match find host searchPath name with
  | .error e => (none, .error e)
  | .ok path =>
    match host.start path with
    | .error cause => (none, .error (.spawn executable cause))
    | .ok started =>
      let bytes := Wire.Message.encode request
      (some ⟨started.place, bytes⟩, readResponse executable (started.execute bytes))

end SdlCompiler.Plugin
