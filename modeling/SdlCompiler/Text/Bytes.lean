/-!
# Places in bytes

Texts cut at a number of bytes of their form in UTF-8. A place inside a character is none.
-/

namespace SdlCompiler.Text

/-- Bytes of the text in UTF-8. -/
def byteLength : List Char → Nat
  | [] => 0
  | c :: rest => c.utf8Size + byteLength rest

/-- The text after its first `n` bytes, empty if there are not that many. -/
def dropBytes? : Nat → List Char → Option (List Char)
  | 0, text => some text
  | _ + 1, [] => some []
  | n + 1, c :: text =>
    if c.utf8Size ≤ n + 1 then dropBytes? (n + 1 - c.utf8Size) text else none

/-- The first `n` bytes of the text, all of it if there are not that many. -/
def takeBytes? : Nat → List Char → Option (List Char)
  | 0, _ => some []
  | _ + 1, [] => some []
  | n + 1, c :: text =>
    if c.utf8Size ≤ n + 1 then (takeBytes? (n + 1 - c.utf8Size) text).map (c :: ·) else none

/-- The text between two places. -/
def slice? (text : List Char) (start stop : Nat) : Option (List Char) := do
  takeBytes? (stop - start) (← dropBytes? start text)

end SdlCompiler.Text
