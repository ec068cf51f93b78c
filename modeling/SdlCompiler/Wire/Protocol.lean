import SdlCompiler.Numeric.Integer
import SdlCompiler.Wire.Descriptor

/-!
# What the compiler and a generator exchange

The compiler sends a request and gets a response. A response holds edits of files, or the text
of an error.
-/

namespace SdlCompiler.Wire

structure Version where
  major : Int32 := 0
  minor : Int32 := 0
  patch : Int32 := 0
  /-- Empty for a release. -/
  suffix : String := ""
deriving DecidableEq, Repr, Inhabited

namespace Version

/-- The version with these parts. A part that is no number counts as zero. -/
def ofParts (major minor patch suffix : String) : Version :=
  let part (text : String) := (Numeric.int32? text.toList).getD 0
  { major := part major, minor := part minor, patch := part patch, suffix }

/-- The version of this compiler. -/
def compiler : Version :=
  ofParts "0" "1" "0" ""

def text (v : Version) : String :=
  let release := s!"{v.major.toInt}.{v.minor.toInt}.{v.patch.toInt}"
  if v.suffix = "" then release else release ++ "-" ++ v.suffix

end Version

instance : Message Version where
  empty := {}
  records v :=
    Record.ofInt32 1 v.major ++ Record.ofInt32 2 v.minor ++ Record.ofInt32 3 v.patch ++
      Record.ofText 4 v.suffix
  merge limit v r :=
    match r.number with
    | 1 => do return { v with major := ← r.int32? }
    | 2 => do return { v with minor := ← r.int32? }
    | 3 => do return { v with patch := ← r.int32? }
    | 4 => do return { v with suffix := ← r.text? }
    | _ => r.skip? limit v

structure Request where
  /-- The names of the files to generate from. -/
  generate : List String := []
  parameter : String := ""
  version : Option Version := none
  files : List File := []
deriving Repr, Inhabited

instance : Message Request where
  empty := {}
  records q :=
    Record.ofTexts 1 q.generate ++ Record.ofText 2 q.parameter ++
      Record.ofMessage 3 q.version ++ Record.ofMessages 15 q.files
  merge limit q r :=
    match r.number with
    | 1 => do return { q with generate := q.generate ++ [← r.text?] }
    | 2 => do return { q with parameter := ← r.text? }
    | 3 => do return { q with version := some (← r.into? limit (q.version.getD {})) }
    | 15 => do return { q with files := q.files ++ [← r.message? limit] }
    | _ => r.skip? limit q

/-- One change to a file. Which one depends on whether it has a name and an insertion point. -/
structure Edit where
  name : String := ""
  insertionPoint : String := ""
  content : String := ""
deriving DecidableEq, Repr, Inhabited

instance : Message Edit where
  empty := {}
  records e :=
    Record.ofText 1 e.name ++ Record.ofText 2 e.insertionPoint ++ Record.ofText 15 e.content
  merge limit e r :=
    match r.number with
    | 1 => do return { e with name := ← r.text? }
    | 2 => do return { e with insertionPoint := ← r.text? }
    | 15 => do return { e with content := ← r.text? }
    | _ => r.skip? limit e

structure Response where
  error : String := ""
  edits : List Edit := []
deriving DecidableEq, Repr, Inhabited

instance : Message Response where
  empty := {}
  records p := Record.ofText 1 p.error ++ Record.ofMessages 15 p.edits
  merge limit p r :=
    match r.number with
    | 1 => do return { p with error := ← r.text? }
    | 15 => do return { p with edits := p.edits ++ [← r.message? limit] }
    | _ => r.skip? limit p

end SdlCompiler.Wire
