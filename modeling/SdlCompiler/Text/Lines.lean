/-!
# Lines of a text

A line ends at a line feed, or at a carriage return directly before one. A carriage return
elsewhere is part of its line, and no empty line follows the last line feed.
-/

namespace SdlCompiler.Text

def lines : List Char → List (List Char)
  | [] => []
  | '\n' :: rest => [] :: lines rest
  | '\r' :: '\n' :: rest => [] :: lines rest
  | c :: rest =>
    match lines rest with
    | [] => [[c]]
    | line :: more => (c :: line) :: more

/-- Lines written one after the other, with a line feed between two of them. -/
def joinLines : List (List Char) → List Char
  | [] => []
  | [line] => line
  | line :: more => line ++ '\n' :: joinLines more

end SdlCompiler.Text
