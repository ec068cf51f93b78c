/-!
# Texts cut apart

`split` cuts at every place where a character stands, so there is one piece more than there are
such places. `splitOnce` cuts at the first place where a text stands.
-/

namespace SdlCompiler.Text

variable {α : Type} [DecidableEq α]

/-- The pieces between the places where `mark` stands. -/
def split (mark : α) : List α → List (List α)
  | [] => [[]]
  | c :: rest =>
    if c = mark then [] :: split mark rest
    else
      match split mark rest with
      | [] => [[c]]
      | piece :: more => (c :: piece) :: more

/-- The text before the first place where `mark` stands, and the text after it. -/
def splitOnce (mark : List α) : List α → Option (List α × List α)
  | [] => if mark = [] then some ([], []) else none
  | c :: rest =>
    if mark.isPrefixOf (c :: rest) then some ([], (c :: rest).drop mark.length)
    else (splitOnce mark rest).map fun (before, after) => (c :: before, after)

end SdlCompiler.Text
