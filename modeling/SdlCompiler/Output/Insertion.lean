import SdlCompiler.Text.Split

/-!
# Insertion points

A line of a file that holds a marker is a place where text can be put in. What goes in is the
line up to the end of the marker, then the text and a line feed; the line itself follows, so the
marker can be used again.
-/

namespace SdlCompiler.Output

/-- The marker of an insertion point. -/
def marker (insertionPoint : String) : List UInt8 :=
  ("@@graphqlc_insertion_point(" ++ insertionPoint ++ ")").toUTF8.toList

def lineFeed : UInt8 := 10

/-- The lines of a file, each with the line feed that ends it. -/
def byteLines : List UInt8 → List (List UInt8)
  | [] => []
  | b :: rest =>
    if b = lineFeed then [b] :: byteLines rest
    else
      match byteLines rest with
      | [] => [[b]]
      | line :: more => (b :: line) :: more

/-- The lines with the content put in at the first one that holds the marker. -/
def injectLines (mark content : List UInt8) : List (List UInt8) → List UInt8
  | [] => []
  | line :: rest =>
    match Text.splitOnce mark line with
    | some (before, _) => before ++ mark ++ content ++ [lineFeed] ++ line ++ rest.flatten
    | none => line ++ injectLines mark content rest

/-- The file with the content put in at an insertion point, if it has that one. -/
def inject (insertionPoint content : String) (file : List UInt8) : List UInt8 :=
  injectLines (marker insertionPoint) content.toUTF8.toList (byteLines file)

end SdlCompiler.Output
