import SdlCompiler.FileTree.Basic
import SdlCompiler.Plugin.ExitStatus

/-!
# Where plugins run

A file tree with programs in it. A program is known by what its file begins with and by what it
does with its input. Programs do not change the tree.

The first line of a file may name an interpreter, another program that reads the file. The one
that is known here is the shell.
-/

namespace SdlCompiler.Plugin

/-- What a program that was started has done by its end. -/
structure Execution where
  status : ExitStatus := .exited 0
  output : List UInt8 := []
  diagnostics : List UInt8 := []
  /-- Why its input could not be written. -/
  inputFault : Option SystemError := none
  /-- Why its end could not be awaited. -/
  waitFault : Option SystemError := none

structure Program where
  /-- What its file begins with. -/
  image : List UInt8 := []
  /-- What it does, by the path it was called by and its input. -/
  execute : String → List UInt8 → Execution

structure Host where
  tree : FileTree
  /-- The programs by the places of their files. -/
  programs : List (Place × Program) := []
  /-- The directory that `~` stands for. -/
  home : String := ""
  /-- The directories where a program named without a directory is looked for. -/
  commandPath : List String := []

/-! ## Scripts -/

/-- The interpreter of scripts. -/
def shell : String := "/bin/sh"

/-- What the shell does with a script that it may not read. -/
def unreadableScript (path : String) : Execution :=
  { status := .exited 2,
    diagnostics := (shell ++ ": 0: cannot open " ++ path ++ ": Permission denied\n").toUTF8.toList }

def isBlankByte (b : UInt8) : Bool :=
  b == 0x20 || b == 0x09

/-- The path of the interpreter that a file names after `#!` in its first line. -/
def interpreter? : List UInt8 → Option String
  | 0x23 :: 0x21 :: rest =>
    let line := (rest.takeWhile (· != 0x0A)).dropWhile isBlankByte
    some ((String.fromUTF8? (line.takeWhile (!isBlankByte ·)).toByteArray).getD "")
  | _ => none

namespace Host

/-- A file that can be run. -/
def isRunnable (host : Host) (path : String) : Bool :=
  match host.tree.locate path with
  | .error _ => false
  | .ok place =>
    match host.tree.entry? place with
    | some (.file _ mode) => FileTree.isExecutable mode
    | _ => false

/-- The path by which the system knows a program. -/
def commandFile (host : Host) (path : String) : String :=
  if path.toList.contains '/' then path
  else
    let candidates := host.commandPath.map fun directory => Path.join directory path
    (candidates.find? host.isRunnable).getD ""

/-- The system's error for a file that is no program. -/
def notAProgram : SystemError := .numbered 8

/-- The program in a file with the given contents. -/
def programAt (host : Host) (place : Place) (content : List UInt8) : Except SystemError Program :=
  match host.programs.lookup place with
  | some program => if program.image.isPrefixOf content then .ok program else .error notAProgram
  | none => .error notAProgram

/-- What was started: the place of its file, and what it does with its input. -/
structure Start where
  place : Place
  execute : List UInt8 → Execution

/-- Starts the interpreter of a script, which has to read the script. -/
def startScript (host : Host) (interpreter path file : String) (place : Place)
    (content : List UInt8) (mode : Nat) : Except SystemError Start := do
  if interpreter = "" then .error notAProgram
  else if interpreter = shell then
    if FileTree.isReadable mode then
      return ⟨place, (← host.programAt place content).execute path⟩
    else return ⟨Path.names shell, fun _ => unreadableScript file⟩
  else
    let _ ← host.tree.locate interpreter
    .error .permissionDenied

/-- Starts the program at a path. -/
def start (host : Host) (path : String) : Except SystemError Start := do
  let file := host.commandFile path
  let place ← host.tree.locate file
  match host.tree.entry? place with
  | some (.file content mode) =>
    if FileTree.isExecutable mode then
      match interpreter? content with
      | some interpreter => host.startScript interpreter path file place content mode
      | none => return ⟨place, (← host.programAt place content).execute path⟩
    else .error .permissionDenied
  | _ => .error .permissionDenied

end Host

end SdlCompiler.Plugin
