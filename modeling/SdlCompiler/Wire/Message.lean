import SdlCompiler.Wire.Varint

/-!
# Messages as bytes

A message is a list of records, each with a number and a payload. A type of messages says which
records it is written as, and what it becomes when a record is merged into it. Records of a
number that the type does not know are skipped; a known number with a payload of the wrong kind
is an error, as are bytes that are no records.

Messages nest at most a hundred deep. `limit` is the number of levels that are left: skipping a
record takes one, and so does each group around it.
-/

namespace SdlCompiler.Wire

inductive Payload where
  | varint (n : UInt64)
  | fixed64 (n : UInt64)
  | bytes (contents : List UInt8)
  | fixed32 (n : UInt32)
  /-- A group of records, given by the number of levels that it takes to skip it. -/
  | group (levels : Nat)
deriving DecidableEq, Repr

structure Record where
  number : Nat
  payload : Payload
deriving DecidableEq, Repr

/-! ## Bytes -/

/-- A number in the given count of bytes, the lowest first. -/
def littleEndian : Nat → Nat → List UInt8
  | 0, _ => []
  | count + 1, n => UInt8.ofNat (n % 256) :: littleEndian count (n / 256)

/-- The number in the given count of bytes at the front, and what follows. -/
def readLittleEndian? : Nat → List UInt8 → Option (Nat × List UInt8)
  | 0, rest => some (0, rest)
  | _ + 1, [] => none
  | count + 1, b :: rest => do
    let (high, rest) ← readLittleEndian? count rest
    return (b.toNat + 256 * high, rest)

namespace Record

def key (number kind : Nat) : List UInt8 :=
  Varint.encode (UInt64.ofNat (8 * number + kind))

/-- The record as bytes. A group has its records left out. -/
def toBytes (r : Record) : List UInt8 :=
  match r.payload with
  | .varint n => key r.number 0 ++ Varint.encode n
  | .fixed64 n => key r.number 1 ++ littleEndian 8 n.toNat
  | .bytes contents =>
    key r.number 2 ++ Varint.encode (UInt64.ofNat contents.length) ++ contents
  | .fixed32 n => key r.number 5 ++ littleEndian 4 n.toNat
  | .group _ => key r.number 3 ++ key r.number 4

/-- Levels that it takes to skip the record. -/
def levels (r : Record) : Nat :=
  match r.payload with
  | .group levels => levels
  | _ => 1

end Record

def writeRecords (records : List Record) : List UInt8 :=
  records.flatMap Record.toBytes

/-- The number and the kind of the record at the front. -/
def readKey? (bytes : List UInt8) : Option (Nat × Nat × List UInt8) := do
  let (n, rest) ← Varint.read? bytes
  let key := n.toNat
  if key < Nat.pow 2 32 ∧ 8 ≤ key then some (key / 8, key % 8, rest) else none

/-- So many bytes from the front, and what follows. -/
def splitBytes? (count : Nat) (bytes : List UInt8) : Option (List UInt8 × List UInt8) :=
  if count ≤ bytes.length then some (bytes.take count, bytes.drop count) else none

/-- The payload of a kind that is no group. -/
def readPayload? (kind : Nat) (bytes : List UInt8) : Option (Payload × List UInt8) :=
  match kind with
  | 0 => do
    let (n, rest) ← Varint.read? bytes
    return (.varint n, rest)
  | 1 => do
    let (n, rest) ← readLittleEndian? 8 bytes
    return (.fixed64 (UInt64.ofNat n), rest)
  | 2 => do
    let (count, rest) ← Varint.read? bytes
    let (contents, rest) ← splitBytes? count.toNat rest
    return (.bytes contents, rest)
  | 5 => do
    let (n, rest) ← readLittleEndian? 4 bytes
    return (.fixed32 (UInt32.ofNat n), rest)
  | _ => none

/-- Records up to the end of the bytes, or up to the end of the group with the given number.
There are at most `count` of them. -/
def readUpTo? : Nat → Option Nat → List UInt8 → Option (List Record × List UInt8)
  | _, none, [] => some ([], [])
  | 0, _, _ => none
  | count + 1, group, bytes => do
    let (number, kind, rest) ← readKey? bytes
    if kind = 4 then
      if group = some number then some ([], rest) else none
    else if kind = 3 then
      let (inner, rest) ← readUpTo? count (some number) rest
      let levels := 1 + ((inner.map Record.levels).max?).getD 0
      let (more, rest) ← readUpTo? count group rest
      return (⟨number, .group levels⟩ :: more, rest)
    else
      let (payload, rest) ← readPayload? kind rest
      let (more, rest) ← readUpTo? count group rest
      return (⟨number, payload⟩ :: more, rest)

def readRecords? (bytes : List UInt8) : Option (List Record) := do
  return (← readUpTo? bytes.length none bytes).1

/-! ## Types of messages -/

class Message (μ : Type) where
  empty : μ
  records : μ → List Record
  merge : Nat → μ → Record → Option μ

namespace Message

variable {μ : Type} [Message μ]

def encode (m : μ) : List UInt8 :=
  writeRecords (records m)

def mergeRecords (limit : Nat) (m : μ) (rs : List Record) : Option μ :=
  rs.foldlM (merge limit) m

/-- The message that the bytes write. -/
def decode? (bytes : List UInt8) : Option μ := do
  mergeRecords 100 empty (← readRecords? bytes)

end Message

namespace Record

/-! ### Payloads of fields -/

def varint? (r : Record) : Option UInt64 :=
  match r.payload with
  | .varint n => some n
  | _ => none

def int32? (r : Record) : Option Int32 :=
  r.varint?.map fun n => n.toUInt32.toInt32

def int64? (r : Record) : Option Int64 :=
  r.varint?.map UInt64.toInt64

def bool? (r : Record) : Option Bool :=
  r.varint?.map fun n => n != 0

def fixed64? (r : Record) : Option UInt64 :=
  match r.payload with
  | .fixed64 n => some n
  | _ => none

def bytes? (r : Record) : Option (List UInt8) :=
  match r.payload with
  | .bytes contents => some contents
  | _ => none

def text? (r : Record) : Option String := do
  String.fromUTF8? (← r.bytes?).toByteArray

/-- The records of an embedded message. -/
def embedded? (r : Record) : Option (List Record) := do
  readRecords? (← r.bytes?)

/-- The message with the record's message merged into it, one level further down. -/
def into? {μ : Type} [Message μ] (limit : Nat) (m : μ) (r : Record) : Option μ :=
  match limit with
  | 0 => none
  | limit + 1 => do Message.mergeRecords limit m (← r.embedded?)

/-- The record's message, one level further down. -/
def message? {μ : Type} [Message μ] (limit : Nat) (r : Record) : Option μ :=
  r.into? limit Message.empty

/-- What is left unchanged by a record that is not known. -/
def skip? {α : Type} (limit : Nat) (a : α) (r : Record) : Option α :=
  if r.levels ≤ limit then some a else none

/-! ### Fields as records -/

/-- A field that holds a text. An empty text is left out. -/
def ofText (number : Nat) (text : String) : List Record :=
  if text = "" then [] else [⟨number, .bytes text.toUTF8.toList⟩]

def ofTexts (number : Nat) (texts : List String) : List Record :=
  texts.map fun text => ⟨number, .bytes text.toUTF8.toList⟩

/-- A field that holds an integer. Zero is left out. -/
def ofInt32 (number : Nat) (n : Int32) : List Record :=
  if n = 0 then [] else [⟨number, .varint n.toInt64.toUInt64⟩]

/-- A field that holds a truth value. False is left out. -/
def ofBool (number : Nat) (b : Bool) : List Record :=
  if b then [⟨number, .varint 1⟩] else []

/-- A message embedded under the given number. -/
def embed {μ : Type} [Message μ] (number : Nat) (m : μ) : Record :=
  ⟨number, .bytes (Message.encode m)⟩

def ofMessage {μ : Type} [Message μ] (number : Nat) (m : Option μ) : List Record :=
  m.toList.map (embed number)

def ofMessages {μ : Type} [Message μ] (number : Nat) (ms : List μ) : List Record :=
  ms.map (embed number)

end Record

end SdlCompiler.Wire
