import SdlCompiler.Output.Insertion
import SdlCompiler.Proofs.Text.Bytes
import SdlCompiler.Proofs.Text.Split

/-!
# Content at insertion points

A file is looked through line by line for a mark. `Spot` says what the search stops at: lines
without the mark, and then the start of a line that has it. As no line feed is in the mark, this
is also where the mark stands first in the whole file. What is put in starts like the line that it
is put before, so the next search stops at the same place.
-/

namespace SdlCompiler.Output

open Text (FirstAt)

variable {mark file before start rest body line part content : List UInt8}

/-! ## Lines -/

theorem byteLines_line (inLine : lineFeed ∉ body) (rest : List UInt8) :
    byteLines (body ++ lineFeed :: rest) = (body ++ [lineFeed]) :: byteLines rest := by
  induction body with
  | nil => rw [List.nil_append, byteLines, if_pos rfl, List.nil_append]
  | cons b body ih =>
    obtain ⟨other, inBody⟩ := List.ne_and_not_mem_of_not_mem_cons inLine
    rw [List.cons_append, byteLines, if_neg other.symm, ih inBody]
    rfl

theorem byteLines_last (inLine : lineFeed ∉ body) (nonempty : body ≠ []) :
    byteLines body = [body] := by
  induction body with
  | nil => exact absurd rfl nonempty
  | cons b body ih =>
    obtain ⟨other, inBody⟩ := List.ne_and_not_mem_of_not_mem_cons inLine
    rw [byteLines, if_neg other.symm]
    cases body with
    | nil => rfl
    | cons c body => rw [ih inBody (List.cons_ne_nil c body)]

/-- A file is empty, or one line without an end, or a line and the file after it. -/
theorem lines_induction {motive : List UInt8 → Prop} (empty : motive [])
    (last : ∀ body, lineFeed ∉ body → body ≠ [] → motive body)
    (line : ∀ body rest, lineFeed ∉ body → motive rest → motive (body ++ lineFeed :: rest))
    (file : List UInt8) : motive file := by
  induction length : file.length using Nat.strong_induction_on generalizing file with
  | _ n ih =>
    by_cases ended : lineFeed ∈ file
    · obtain ⟨body, rest, rfl, inLine⟩ := List.eq_append_cons_of_mem ended
      refine line body rest inLine (ih rest.length ?_ rest rfl)
      rw [← length, List.length_append, List.length_cons]
      omega
    · cases file with
      | nil => exact empty
      | cons b file => exact last _ ended (List.cons_ne_nil b file)

theorem flatten_byteLines (file : List UInt8) : (byteLines file).flatten = file := by
  induction file using lines_induction with
  | empty => rfl
  | last body inLine nonempty => rw [byteLines_last inLine nonempty, List.flatten_singleton]
  | line body rest inLine ih =>
    rw [byteLines_line inLine, List.flatten_cons, ih, List.append_assoc, List.singleton_append]

/-- A line feed is at the end of a line, if anywhere. -/
theorem exists_body (member : line ∈ byteLines file) :
    ∃ body, lineFeed ∉ body ∧ (line = body ∨ line = body ++ [lineFeed]) := by
  induction file using lines_induction with
  | empty => cases member
  | last body inLine nonempty =>
    rw [byteLines_last inLine nonempty, List.mem_singleton] at member
    exact ⟨body, inLine, .inl member⟩
  | line body rest inLine ih =>
    rw [byteLines_line inLine, List.mem_cons] at member
    rcases member with rfl | later
    · exact ⟨body, inLine, .inr rfl⟩
    · exact ih later

/-- A part of a file after which a line starts. -/
def EndsLine (part : List UInt8) : Prop :=
  part = [] ∨ part.getLast? = some lineFeed

theorem endsLine_line : EndsLine (body ++ lineFeed :: rest) ↔ EndsLine rest := by
  cases rest with
  | nil => simp [EndsLine]
  | cons b rest => simp [EndsLine, List.getLast?_append, List.getLast?_cons_cons]

theorem not_endsLine (inLine : lineFeed ∉ body) (nonempty : body ≠ []) : ¬EndsLine body := by
  rintro (empty | ended)
  · exact nonempty empty
  · exact inLine (List.mem_of_getLast? ended)

theorem byteLines_append (ends : EndsLine part) (rest : List UInt8) :
    byteLines (part ++ rest) = byteLines part ++ byteLines rest := by
  induction part using lines_induction with
  | empty => rfl
  | last body inLine nonempty => exact absurd ends (not_endsLine inLine nonempty)
  | line body later inLine ih =>
    rw [List.append_assoc, List.cons_append, byteLines_line inLine, byteLines_line inLine,
      ih (endsLine_line.1 ends), List.cons_append]

/-- A file starts with its first line. -/
theorem exists_byteLines_append (inLine : lineFeed ∉ start) (nonempty : start ≠ [])
    (rest : List UInt8) : ∃ tail more, byteLines (start ++ rest) = (start ++ tail) :: more := by
  by_cases ended : lineFeed ∈ rest
  · obtain ⟨tail, later, rfl, inTail⟩ := List.eq_append_cons_of_mem ended
    have whole : lineFeed ∉ start ++ tail := by simp [inLine, inTail]
    exact ⟨tail ++ [lineFeed], byteLines later, by
      rw [← List.append_assoc, byteLines_line whole, List.append_assoc]⟩
  · have whole : lineFeed ∉ start ++ rest := by simp [inLine, ended]
    exact ⟨rest, [], byteLines_last whole (by simp [nonempty])⟩

/-! ## Marks -/

/-- A mark that does not end in a line feed. -/
def IsClosed (mark : List UInt8) : Prop :=
  ∃ stem last, mark = stem ++ [last] ∧ last ≠ lineFeed

theorem IsClosed.ne_nil (closed : IsClosed mark) : mark ≠ [] := by
  obtain ⟨stem, last, rfl, -⟩ := closed
  simp

/-- A line has no line feed before the end of the mark. -/
theorem IsClosed.unbroken (closed : IsClosed mark) (member : line ∈ byteLines file)
    (starts : start ++ mark <+: line) : lineFeed ∉ start ++ mark := by
  obtain ⟨stem, last, rfl, visible⟩ := closed
  obtain ⟨body, inLine, rfl | rfl⟩ := exists_body member
  · exact fun broken => inLine (starts.subset broken)
  · rcases List.prefix_concat_iff.1 starts with whole | within
    · rw [← List.append_assoc] at whole
      exact absurd (List.cons.inj (List.append_inj' whole rfl).2).1 visible
    · exact fun broken => inLine (within.subset broken)

theorem marker_eq (insertionPoint : String) :
    marker insertionPoint = Text.bytesOf "@@graphqlc_insertion_point(".toList ++
      Text.bytesOf insertionPoint.toList ++ [41] := by
  rw [marker, Text.toList_toUTF8, String.toList_append, String.toList_append, Text.bytesOf,
    List.flatMap_append, List.flatMap_append]
  rfl

theorem marker_isClosed (insertionPoint : String) : IsClosed (marker insertionPoint) :=
  ⟨_, 41, marker_eq insertionPoint, by decide⟩

theorem lineFeed_mem_marker {insertionPoint : String} (twoLines : '\n' ∈ insertionPoint.toList) :
    lineFeed ∈ marker insertionPoint := by
  have encoded : lineFeed ∈ Text.bytesOf insertionPoint.toList :=
    List.mem_flatMap.2 ⟨'\n', twoLines, by decide⟩
  rw [marker_eq]
  simp [encoded]

/-! ## Where the search stops -/

/-- The lines before a place do not have the mark, and its own line has it first after `start`. -/
structure Spot (mark before start : List UInt8) : Prop where
  endsLine : EndsLine before
  free : ∀ line ∈ byteLines before, ¬mark <:+: line
  inLine : lineFeed ∉ start ++ mark
  nonempty : mark ≠ []
  first : FirstAt mark (start ++ mark) start.length

/-- If a line has the mark, the search stops somewhere. -/
theorem exists_spot (closed : IsClosed mark) (occurs : ∃ line ∈ byteLines file, mark <:+: line) :
    ∃ before start rest, file = before ++ (start ++ mark ++ rest) ∧ Spot mark before start := by
  -- A first line that has the mark is where the search stops, whatever comes after the line.
  have here : ∀ {line file : List UInt8}, line ∈ byteLines file → mark <:+: line →
      ∃ start tail, line = start ++ mark ++ tail ∧ Spot mark [] start := by
    intro line file member within
    obtain ⟨start, tail, rfl, first⟩ := Text.exists_firstAt within
    have unbroken := closed.unbroken member (List.prefix_append (start ++ mark) tail)
    exact ⟨start, tail, rfl, .inl rfl, by simp [byteLines], unbroken, closed.ne_nil,
      Text.firstAt_append.1 first⟩
  induction file using lines_induction with
  | empty =>
    obtain ⟨line, member, -⟩ := occurs
    cases member
  | last body inLine nonempty =>
    obtain ⟨line, member, within⟩ := occurs
    obtain ⟨start, tail, cut, spot⟩ := here member within
    rw [byteLines_last inLine nonempty, List.mem_singleton] at member
    exact ⟨[], start, tail, member ▸ cut, spot⟩
  | line body later inLine ih =>
    rw [byteLines_line inLine] at occurs
    by_cases within : mark <:+: body ++ [lineFeed]
    · have member : body ++ [lineFeed] ∈ byteLines (body ++ lineFeed :: later) := by
        simp [byteLines_line inLine]
      obtain ⟨start, tail, cut, spot⟩ := here member within
      refine ⟨[], start, tail ++ later, ?_, spot⟩
      rw [List.nil_append, ← List.append_assoc, ← cut, List.append_assoc, List.singleton_append]
    · obtain ⟨before, start, rest, rfl, spot⟩ := ih (by simpa [within] using occurs)
      refine ⟨body ++ lineFeed :: before, start, rest, by simp, endsLine_line.2 spot.endsLine, ?_,
        spot.inLine, spot.nonempty, spot.first⟩
      rw [byteLines_line inLine]
      exact List.forall_mem_cons.2 ⟨within, spot.free⟩

/-- Text without a line feed does not reach into the next line. -/
theorem prefix_of_prefix_line (unbroken : lineFeed ∉ mark)
    (starts : mark <+: body ++ lineFeed :: rest) : mark <+: body := by
  rcases Nat.le_total mark.length body.length with short | long
  · exact List.prefix_of_prefix_length_le starts (List.prefix_append _ _) short
  · obtain ⟨tail, rfl⟩ := List.prefix_of_prefix_length_le (List.prefix_append _ _) starts long
    rw [List.prefix_append_right_inj] at starts
    cases tail with
    | nil => rw [List.append_nil]
    | cons b tail =>
      obtain ⟨rfl, -⟩ := List.cons_prefix_cons.1 starts
      exact absurd (by simp) unbroken

/-- The mark stands nowhere in lines that do not have it. -/
theorem not_prefix_drop (unbroken : lineFeed ∉ mark) (ends : EndsLine before)
    (free : ∀ line ∈ byteLines before, ¬mark <:+: line) {place : Nat}
    (inside : place < before.length) : ¬mark <+: (before ++ rest).drop place := by
  induction before using lines_induction generalizing place with
  | empty => cases inside
  | last body inLine nonempty => exact absurd ends (not_endsLine inLine nonempty)
  | line body later inLine ih =>
    rw [byteLines_line inLine, List.forall_mem_cons] at free
    rcases Nat.lt_or_ge body.length place with inLater | here
    · obtain ⟨further, rfl⟩ := Nat.exists_eq_add_of_lt inLater
      have less : further < later.length := by
        rw [List.length_append, List.length_cons] at inside
        omega
      rw [List.append_assoc, Nat.add_assoc, List.drop_length_add_append, List.cons_append,
        List.drop_succ_cons]
      exact ih (endsLine_line.1 ends) free.2 less
    · rw [List.append_assoc, List.cons_append, List.drop_append_of_le_length here]
      intro starts
      have within : mark <:+: body :=
        (prefix_of_prefix_line unbroken starts).isInfix.trans (List.drop_suffix place body).isInfix
      exact free.1 (within.trans (List.prefix_append _ _).isInfix)

/-- The search through the lines stops where the mark stands first in the whole file. -/
theorem Spot.firstAt (spot : Spot mark before start) (rest : List UInt8) :
    FirstAt mark (before ++ (start ++ mark ++ rest)) (before.length + start.length) := by
  have unbroken : lineFeed ∉ mark := fun broken => spot.inLine (List.mem_append_right _ broken)
  have found : FirstAt mark (start ++ mark ++ rest) start.length := Text.firstAt_append.2 spot.first
  refine ⟨by rw [List.drop_length_add_append]; exact found.here, fun earlier less => ?_⟩
  rcases Nat.lt_or_ge earlier before.length with inside | later
  · exact not_prefix_drop unbroken spot.endsLine spot.free inside
  · obtain ⟨further, rfl⟩ := Nat.exists_eq_add_of_le later
    rw [List.drop_length_add_append]
    exact found.first further (Nat.lt_of_add_lt_add_left less)

/-! ## What is put in -/

theorem injectLines_append {lines more : List (List UInt8)}
    (free : ∀ line ∈ lines, ¬mark <:+: line) :
    injectLines mark content (lines ++ more) = lines.flatten ++ injectLines mark content more := by
  induction lines with
  | nil => rfl
  | cons line lines ih =>
    obtain ⟨freeHere, freeLater⟩ := List.forall_mem_cons.1 free
    rw [List.cons_append, injectLines, Text.splitOnce_eq_none.2 freeHere]
    dsimp only
    rw [ih freeLater, List.flatten_cons, List.append_assoc]

theorem injectLines_free (free : ∀ line ∈ byteLines file, ¬mark <:+: line) :
    injectLines mark content (byteLines file) = file := by
  have passed : injectLines mark content (byteLines file ++ []) = (byteLines file).flatten ++ [] :=
    injectLines_append free
  rwa [List.append_nil, List.append_nil, flatten_byteLines] at passed

theorem Spot.exists_line (spot : Spot mark before start) (rest : List UInt8) :
    ∃ tail more, byteLines (before ++ (start ++ mark ++ rest)) =
        byteLines before ++ (start ++ mark ++ tail) :: more ∧
      start ++ mark ++ rest = start ++ mark ++ tail ++ more.flatten ∧
      FirstAt mark (start ++ mark ++ tail) start.length := by
  have nonempty : start ++ mark ≠ [] := by simp [spot.nonempty]
  obtain ⟨tail, more, lines⟩ := exists_byteLines_append spot.inLine nonempty rest
  refine ⟨tail, more, ?_, ?_, Text.firstAt_append.2 spot.first⟩
  · rw [byteLines_append spot.endsLine, lines]
  · rw [← flatten_byteLines (start ++ mark ++ rest), lines, List.flatten_cons]

/-- The content goes in behind a copy of the line up to the end of the mark. -/
theorem Spot.inject_eq {insertionPoint : String} (spot : Spot (marker insertionPoint) before start)
    (content : String) (rest : List UInt8) :
    inject insertionPoint content (before ++ (start ++ marker insertionPoint ++ rest)) =
      before ++ (start ++ marker insertionPoint ++
        (content.toUTF8.toList ++ lineFeed :: (start ++ marker insertionPoint ++ rest))) := by
  obtain ⟨tail, more, lines, same, first⟩ := spot.exists_line rest
  have cut : Text.splitOnce (marker insertionPoint) (start ++ marker insertionPoint ++ tail) =
      some (start, tail) := Text.splitOnce_eq_some.2 ⟨rfl, first⟩
  rw [inject, lines, injectLines_append spot.free, flatten_byteLines, injectLines, cut, same]
  simp

/-- Whatever stands behind the mark, the next content is put in at the same place. -/
theorem Spot.foldl_inject_eq {insertionPoint : String}
    (spot : Spot (marker insertionPoint) before start) (contents : List String)
    (rest : List UInt8) :
    ∃ later,
      contents.foldl (fun file content => inject insertionPoint content file)
        (before ++ (start ++ marker insertionPoint ++ rest)) =
          before ++ (start ++ marker insertionPoint ++ later) ∧
      start ++ marker insertionPoint ++ later =
        contents.reverse.flatMap (fun content =>
          start ++ marker insertionPoint ++ content.toUTF8.toList ++ [lineFeed]) ++
          (start ++ marker insertionPoint ++ rest) := by
  induction contents generalizing rest with
  | nil => exact ⟨rest, rfl, rfl⟩
  | cons content contents ih =>
    rw [List.foldl_cons, spot.inject_eq]
    obtain ⟨later, folded, same⟩ :=
      ih (content.toUTF8.toList ++ lineFeed :: (start ++ marker insertionPoint ++ rest))
    exact ⟨later, folded, by rw [same]; simp⟩

/-- The line of a place of a file starts at another. -/
structure LineAt (file : List UInt8) (place start : Nat) : Prop where
  before : start ≤ place
  starts : EndsLine (file.take start)
  inLine : lineFeed ∉ (file.take place).drop start

theorem Spot.lineAt (spot : Spot mark before start) (rest : List UInt8) :
    LineAt (before ++ (start ++ mark ++ rest)) (before.length + start.length) before.length where
  before := Nat.le_add_right _ _
  starts := by
    rw [List.take_left]
    exact spot.endsLine
  inLine := by
    rw [List.take_length_add_append, List.drop_left, List.append_assoc, List.take_left]
    exact fun broken => spot.inLine (List.mem_append_left _ broken)

/-- A file in no line of which the mark of the insertion point stands is left as it is. Else one
segment is put into it, before the line where the mark stands first in the whole file: that line up
to the end of the mark, the content and a line feed. -/
theorem inject_segment (insertionPoint content : String) (file : List UInt8) :
    ((∀ line ∈ byteLines file, ¬marker insertionPoint <:+: line) →
      inject insertionPoint content file = file) ∧
    ('\n' ∈ insertionPoint.toList →
      ∀ line ∈ byteLines file, ¬marker insertionPoint <:+: line) ∧
    ((∃ line ∈ byteLines file, marker insertionPoint <:+: line) →
      ∃ place start segment, FirstAt (marker insertionPoint) file place ∧
        LineAt file place start ∧
        segment = (file.take (place + (marker insertionPoint).length)).drop start ++
          content.toUTF8.toList ++ [lineFeed] ∧
        inject insertionPoint content file = file.take start ++ segment ++ file.drop start ∧
        (inject insertionPoint content file).take start ++
          (inject insertionPoint content file).drop (start + segment.length) = file) := by
  have closed := marker_isClosed insertionPoint
  refine ⟨injectLines_free, fun twoLines line member within => ?_, fun occurs => ?_⟩
  · obtain ⟨start, tail, rfl⟩ := within
    refine closed.unbroken member (List.prefix_append (start ++ marker insertionPoint) tail) ?_
    exact List.mem_append_right _ (lineFeed_mem_marker twoLines)
  · obtain ⟨before, start, rest, rfl, spot⟩ := exists_spot closed occurs
    have injected := spot.inject_eq content rest
    have upToMark : ((before ++ (start ++ marker insertionPoint ++ rest)).take
        (before.length + start.length + (marker insertionPoint).length)).drop before.length =
          start ++ marker insertionPoint := by
      rw [Nat.add_assoc, List.take_length_add_append, List.drop_left, ← List.length_append,
        List.take_left]
    refine ⟨_, _, _, spot.firstAt rest, spot.lineAt rest, rfl, ?_, ?_⟩
    · rw [injected, upToMark, List.take_left, List.drop_left]
      simp
    · rw [injected, upToMark, List.take_left, List.drop_length_add_append]
      simp

/-- Contents put in at the same point one after the other stand before its line, the last of them
first, each behind a copy of the line up to the end of the mark. -/
theorem foldl_inject {insertionPoint : String}
    (occurs : ∃ line ∈ byteLines file, marker insertionPoint <:+: line) :
    ∃ before line after place, byteLines file = before ++ line :: after ∧
      (∀ other ∈ before, ¬marker insertionPoint <:+: other) ∧
      FirstAt (marker insertionPoint) line place ∧
      ∀ contents : List String,
        contents.foldl (fun file content => inject insertionPoint content file) file =
          file.take before.flatten.length ++
            contents.reverse.flatMap (fun content =>
              line.take (place + (marker insertionPoint).length) ++ content.toUTF8.toList ++
                [lineFeed]) ++
            file.drop before.flatten.length ∧
        ∃ line ∈ byteLines
            (contents.foldl (fun file content => inject insertionPoint content file) file),
          marker insertionPoint <:+: line := by
  obtain ⟨before, start, rest, rfl, spot⟩ := exists_spot (marker_isClosed insertionPoint) occurs
  obtain ⟨tail, more, lines, -, first⟩ := spot.exists_line rest
  have upToMark : (start ++ marker insertionPoint ++ tail).take
      (start.length + (marker insertionPoint).length) = start ++ marker insertionPoint := by
    rw [← List.length_append, List.take_left]
  refine ⟨byteLines before, start ++ marker insertionPoint ++ tail, more, start.length, lines,
    spot.free, first, fun contents => ?_⟩
  obtain ⟨later, folded, same⟩ := spot.foldl_inject_eq contents rest
  rw [flatten_byteLines, List.take_left, List.drop_left, upToMark, folded]
  refine ⟨by rw [same, ← List.append_assoc], ?_⟩
  obtain ⟨tail, more, lines, -⟩ := spot.exists_line later
  rw [lines]
  exact ⟨start ++ marker insertionPoint ++ tail, by simp, start, tail, rfl⟩

/-- A file with the same mark in two of its lines, and no line feed at its end. -/
def markedLines : List (List UInt8) :=
  ["head\n", "a @@graphqlc_insertion_point(x) b\n", "@@graphqlc_insertion_point(x)"].map
    (·.toUTF8.toList)

theorem foldl_inject_marked :
    (∃ line ∈ byteLines markedLines.flatten, marker "x" <:+: line) ∧
      ["one", "two\n@@graphqlc_insertion_point(x)"].foldl
          (fun file content => inject "x" content file) markedLines.flatten =
        ("head\na @@graphqlc_insertion_point(x)two\n@@graphqlc_insertion_point(x)\n" ++
          "a @@graphqlc_insertion_point(x)one\na @@graphqlc_insertion_point(x) b\n" ++
          "@@graphqlc_insertion_point(x)").toUTF8.toList := by
  have lines : byteLines markedLines.flatten = markedLines := by decide +kernel
  have occurs : ∃ line ∈ byteLines markedLines.flatten, marker "x" <:+: line := by
    rw [lines]
    decide +kernel
  obtain ⟨before, line, after, place, cut, free, found, folded⟩ := foldl_inject occurs
  refine ⟨occurs, ?_⟩
  rw [lines] at cut
  -- The second line is the first that has the mark.
  rcases before with _ | ⟨first, _ | ⟨second, more⟩⟩
  · obtain ⟨rfl, -⟩ := List.cons.inj cut
    exact absurd found.isInfix (by decide +kernel)
  · obtain ⟨rfl, tail⟩ := List.cons.inj cut
    obtain ⟨rfl, -⟩ := List.cons.inj tail
    have isTwo : FirstAt (marker "x") "a @@graphqlc_insertion_point(x) b\n".toUTF8.toList 2 :=
      ⟨by decide +kernel, by decide +kernel⟩
    obtain rfl := found.unique isTwo
    rw [(folded _).1]
    decide +kernel
  · have freeSecond := free second (.tail _ (.head _))
    obtain ⟨-, tail⟩ := List.cons.inj cut
    obtain ⟨rfl, -⟩ := List.cons.inj tail
    exact absurd (by decide +kernel) freeSecond

end SdlCompiler.Output
