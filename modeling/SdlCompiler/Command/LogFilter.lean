import SdlCompiler.Command.LogDirective

/-!
# Log filters

A filter is a list of directives with commas between them. Of the directives that are about a
message, the most specific one decides whether it is shown, and of two that say the same, the
later one.
-/

namespace SdlCompiler.Command

structure LogFilter where
  directives : List LogDirective
deriving DecidableEq, Repr

namespace LogFilter

/-- What is shown where nothing is said: warnings and errors. -/
def default : LogFilter := ⟨[{ level := .warn }]⟩

/-- Reads the directives of a filter. Those that cannot be read are left out, and are returned
with what is wrong with them. -/
def readPieces : List (List Char) →
    Except Defect (List LogDirective × List (String × DirectiveError))
  | [] => .ok ([], [])
  | piece :: rest =>
    match LogDirective.read piece with
    | .ok directive => do
      let (directives, bad) ← readPieces rest
      return (directive :: directives, bad)
    | .error (.error e) => do
      let (directives, bad) ← readPieces rest
      return (directives, (String.ofList piece, e) :: bad)
    | .error (.crash defect) => .error defect

/-- Reads a filter, with the directives that cannot be read. -/
def read (text : String) : Except Defect (LogFilter × List (String × DirectiveError)) := do
  let (directives, bad) ← readPieces ((Text.split ',' text.toList).filter (· ≠ []))
  return (if directives.isEmpty then default else ⟨directives⟩, bad)

/-- The directive that decides about messages with a target and some fields. -/
def deciding? (filter : LogFilter) (target : String) (fields : List String) :
    Option LogDirective :=
  (filter.directives.filter (·.covers target fields)).foldl
    (fun best directive =>
      if best.all directive.isAsSpecific then some directive else best)
    none

/-- Messages of a level with a target and some fields are shown. -/
def shows (filter : LogFilter) (target : String) (fields : List String) (level : Level) : Bool :=
  (filter.deciding? target fields).any fun directive => level.rank ≤ directive.level.rank

end LogFilter

end SdlCompiler.Command
