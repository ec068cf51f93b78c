import SdlCompiler.SystemError
import SdlCompiler.Wire.Nesting
import SdlCompiler.Wire.Protocol

/-!
# A generator's side of an exchange

A plugin reads a request up to the end of its input, generates, and writes a response. A
generator that fails still answers: the response then holds its error. The exchange itself fails
only if the plugin cannot read, cannot decode the request, or cannot write.
-/

namespace SdlCompiler.Plugin

/-- From a request to the edits for it, or the text of an error. -/
abbrev Generator := Wire.Request → Except String (List Wire.Edit)

def respond (generate : Generator) (request : Wire.Request) : Wire.Response :=
  match generate request with
  | .ok edits => { edits }
  | .error text => { error := text }

/-- Where a plugin reads from. A fault shows after the last byte. -/
structure Source where
  bytes : List UInt8
  fault : Option SystemError := none

namespace Source

def readToEnd (source : Source) : Except SystemError (List UInt8) :=
  match source.fault with
  | none => .ok source.bytes
  | some fault => .error fault

end Source

/-- Where a plugin writes to. A write of no bytes does not touch a fault of writing. -/
structure Sink where
  writeFault : Option SystemError := none
  flushFault : Option SystemError := none

namespace Sink

/-- Writes all of the bytes and flushes them. -/
def write (sink : Sink) (bytes : List UInt8) : Except SystemError Unit :=
  match (if bytes.isEmpty then none else sink.writeFault).or sink.flushFault with
  | none => .ok ()
  | some fault => .error fault

end Sink

inductive ExchangeError where
  | read (cause : SystemError)
  | decode (cause : Wire.RequestFault)
  | write (cause : SystemError)
deriving DecidableEq, Repr

def ExchangeError.message : ExchangeError → String
  | read cause => "could not read the request: " ++ cause.message
  | decode cause => "could not decode the request: " ++ cause.message
  | write cause => "could not write the response: " ++ cause.message

/-- The bytes that a plugin writes in an exchange that succeeds. -/
def exchange (source : Source) (sink : Sink) (generate : Generator) :
    Except ExchangeError (List UInt8) := do
  let bytes ← source.readToEnd.mapError .read
  match Wire.Message.decode? bytes with
  | none => .error (.decode (.ofBytes bytes))
  | some request =>
    let reply := Wire.Message.encode (respond generate request)
    (sink.write reply).mapError .write
    return reply

end SdlCompiler.Plugin
