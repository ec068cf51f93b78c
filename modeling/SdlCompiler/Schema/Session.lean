import SdlCompiler.Schema.Compile

/-!
# Passes one by one

The passes of a compilation as single calls on a file that is being built. A call that fails
leaves what it did before it failed, and the names of the last document registered stay in use.
-/

namespace SdlCompiler.Schema

/-- A file under construction, and the names that its passes look up. -/
structure Session where
  names : Names := {}
  file : File := {}
deriving Repr, Inhabited

/-- A pass over a document. -/
inductive Call where
  | register (document : Document)
  | populate (document : Document)
  | synthesize
deriving Repr, Inhabited

namespace Session

def call (session : Session) : Call → Session × Except (Abort SchemaError) Unit
  | .register document =>
    match Names.register document session.file with
    | (file, .ok names) => ({ names, file }, .ok ())
    | (file, .error e) => ({ session with file }, .error (.error e))
  | .populate document =>
    let (file, outcome) := session.names.populate session.file document
    ({ session with file }, outcome)
  | .synthesize =>
    let (file, outcome) := session.names.synthesize session.file
    ({ session with file }, Names.step outcome)

/-- The session after the calls, whatever their outcomes. -/
def run (session : Session) (calls : List Call) : Session :=
  calls.foldl (fun session c => (session.call c).1) session

/-- Starts a new file and keeps the names. -/
def restart (session : Session) (name : String) : Session :=
  { session with file := { name } }

end Session

end SdlCompiler.Schema
