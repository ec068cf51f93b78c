import SdlCompiler.Command.LogLevel
import SdlCompiler.Expression.Support
import SdlCompiler.Numeric.Decimal
import SdlCompiler.Schema.Error
import SdlCompiler.Text.Alphanumeric
import SdlCompiler.Text.Blank
import SdlCompiler.Text.Bytes
import SdlCompiler.Text.Split

/-!
# Directives of a log filter

A directive sets the level down to which messages are shown. It may say which ones it is about:
`target[span{field=value}]=level`, where each part but one may be missing, and the level alone
is a directive too. There is at most one field, since commas stand between directives.

The parts are found in the text without the blanks at its ends, but cut out of the text as it
was given. Blanks at the front therefore shift every part towards the front, and blanks at the
end belong to the last one.
-/

namespace SdlCompiler.Command

/-- A field that a message or a span has to have, with or without a condition on its value. -/
structure FieldFilter where
  name : String
  value : Option String := none
deriving DecidableEq, Repr

structure LogDirective where
  /-- What a target has to begin with. -/
  target : String := ""
  span : Option String := none
  field : Option FieldFilter := none
  level : Level := .trace
deriving DecidableEq, Repr

inductive DirectiveError where
  | malformed
  | level
  /-- The condition on a field's value is neither a number nor a regular expression that can be
  used. -/
  | value (fault : Expression.Fault)
deriving DecidableEq, Repr

def DirectiveError.message : DirectiveError → String
  | malformed => "invalid filter directive"
  | level =>
    "error parsing level filter: expected one of \"off\", \"error\", \"warn\", \"info\", " ++
      "\"debug\", \"trace\", or a number 0-5"
  | value fault => "invalid field filter: " ++ fault.message

/-- Why a text cannot be a condition on a value, if so. -/
def conditionFault? (text : List Char) : Option Expression.Fault :=
  if (Numeric.Binary64.read? text).isSome then none else Expression.fault? text

/-- A field as it is written. What follows a second equals sign is not looked at. -/
def FieldFilter.read (text : List Char) : Except DirectiveError FieldFilter :=
  match Text.split '=' text with
  | name :: value :: _ =>
    match conditionFault? value with
    | none => .ok { name := .ofList name, value := some (.ofList value) }
    | some fault => .error (.value fault)
  | _ => .ok { name := .ofList text }

namespace LogDirective

/-- What a part of a directive is read as. -/
abbrev Reading (α : Type) : Type := Except (Abort DirectiveError) α

def malformed {α : Type} : Reading α :=
  .error (.error .malformed)

/-- The part of the given text between two places. -/
def part (given : List Char) (start stop : Nat) : Reading (List Char) :=
  match Text.slice? given start stop with
  | some text => .ok text
  | none => .error (.crash .filterPart)

/-- The place of the first of some marks in a text that starts at a place, with that mark and
what follows it. -/
def findMark (marks : List Char) (place : Nat) (text : List Char) :
    Nat × Option (Char × List Char) :=
  let isMark (c : Char) := marks.contains c
  (place + Text.byteLength (text.takeWhile (!isMark ·)),
    match text.dropWhile (!isMark ·) with
    | [] => none
    | mark :: rest => some (mark, rest))

/-- The directive with the level that stands at the end of the given text. No level at all
counts as the one that shows everything. -/
def readLevel (given : List Char) (start : Nat) (directive : LogDirective) :
    Reading LogDirective := do
  let text ← part given start (Text.byteLength given)
  if text = [] then return directive
  else
    match Level.ofText? (.ofList text) with
    | some level => return { directive with level }
    | none => .error (.error .level)

/-- The directive with the level that may follow its other parts. -/
def readEnd (given : List Char) (place : Nat) (rest : List Char) (directive : LogDirective) :
    Reading LogDirective :=
  match rest with
  | [] => .ok directive
  | '=' :: _ => readLevel given (place + 1) directive
  | _ => malformed

/-- The directive with the field whose text starts at a place, after a brace. -/
def readField (given : List Char) (start : Nat) (text : List Char) (directive : LogDirective) :
    Reading LogDirective :=
  match findMark ['\x7d'] start text with
  | (stop, some (_, rest)) => do
    let field ← part given start stop
    if field = [] then malformed
    else
      let field ← (FieldFilter.read field).mapError .error
      match rest with
      | ']' :: rest => readEnd given (stop + 2) rest { directive with field := some field }
      | _ => malformed
  | (_, none) => malformed

/-- The directive with the span whose text starts at a place, after a bracket. -/
def readSpan (given : List Char) (start : Nat) (text : List Char) (directive : LogDirective) :
    Reading LogDirective :=
  match findMark [']', '\x7b'] start text with
  | (stop, some (']', rest)) => do
    let span ← part given start stop
    readEnd given (stop + 1) rest { directive with span := some (.ofList span) }
  | (stop, some (_, rest)) => do
    let span ← part given start stop
    let span := if span = [] then none else some (String.ofList span)
    readField given (stop + 1) rest { directive with span }
  | (_, none) => malformed

/-- A text that is a level or else a target. -/
def ofWord (text : List Char) : LogDirective :=
  match Level.ofText? (.ofList text) with
  | some level => { level }
  | none => { target := .ofList text }

def isTargetStart (c : Char) : Bool :=
  Text.isAlphanumeric c || c == '-' || c == ':' || c == '_'

/-- Reads a directive. -/
def read (given : List Char) : Reading LogDirective :=
  match Text.trim given with
  | [] => malformed
  | '[' :: rest => readSpan given 1 rest {}
  | first :: rest =>
    if !isTargetStart first then malformed
    else
      match findMark ['=', '['] 0 (first :: rest) with
      | (_, none) => .ok (ofWord given)
      | (stop, some (mark, rest)) => do
        let target ← part given 0 stop
        let directive : LogDirective := { target := .ofList target }
        if mark = '=' then readLevel given (stop + 1) directive
        else readSpan given (stop + 1) rest directive

/-- A directive that is about messages. The others are about what happens inside a span. -/
def isAboutMessages (directive : LogDirective) : Bool :=
  directive.span.isNone && directive.field.all fun field => field.value.isNone

/-- A message with the target and the fields is one of those that a directive is about. -/
def covers (directive : LogDirective) (target : String) (fields : List String) : Bool :=
  directive.isAboutMessages && directive.target.toList.isPrefixOf target.toList &&
    directive.field.all fun field => fields.contains field.name

/-- A directive says at least as much as another about the messages that both are about: its
target is longer, or as long, and it has a field that the other has not, or one that does not
come before the other's. -/
def isAsSpecific (directive other : LogDirective) : Bool :=
  let length := directive.target.length
  let otherLength := other.target.length
  otherLength < length || otherLength == length &&
    match other.field, directive.field with
    | none, _ => true
    | some _, none => false
    | some old, some new => old.name ≤ new.name

end LogDirective

end SdlCompiler.Command
