import SdlCompiler.Command.Configure
import SdlCompiler.Proofs.Text.Split

/-!
# Plugin flags and the plugins they ask for

A flag is read as it is written: its name ends at the first `_out=`, and a parameter ends at the
first colon after it (`pluginFlag?_syntax`). The flags of a command line give one invocation for
each name, the last one, at the position of the first (`invocations_registered`).
-/

namespace SdlCompiler.Command

open Compiler (Invocation Invocations)

/-! ## The text of a flag -/

/-- The flag without the dashes before it. -/
def undashed (flag : String) : String :=
  .ofList (flag.toList.dropWhile (· = '-'))

/-- A name that a plugin can have in a flag. -/
structure IsPluginName (name : String) : Prop where
  nonempty : name ≠ ""
  noDash : name.toList.head? ≠ some '-'
  noMarker : ¬"_out=".toList <:+: name.toList

theorem splitDestination_eq {text parameter directory : List Char} :
    splitDestination text = (parameter, directory) ↔
      text = parameter ++ ':' :: directory ∧ ':' ∉ parameter ∨
        parameter = [] ∧ text = directory ∧ ':' ∉ directory := by
  unfold splitDestination
  cases cut : Text.splitOnce [':'] text with
  | none =>
    rw [Text.splitOnce_singleton_eq_none] at cut
    rw [Option.getD_none, Prod.mk.injEq]
    constructor
    · rintro ⟨rfl, rfl⟩
      exact .inr ⟨rfl, rfl, cut⟩
    · rintro (⟨rfl, -⟩ | ⟨rfl, rfl, -⟩)
      · exact absurd (by simp) cut
      · exact ⟨rfl, rfl⟩
  | some pieces =>
    rw [Option.getD_some]
    constructor
    · rintro rfl
      exact .inl (Text.splitOnce_singleton_eq_some.1 cut)
    · rintro (whole | ⟨-, rfl, noColon⟩)
      · exact Option.some.inj (cut.symm.trans (Text.splitOnce_singleton_eq_some.2 whole))
      · obtain ⟨rfl, -⟩ := Text.splitOnce_singleton_eq_some.1 cut
        exact absurd (by simp) noColon

theorem splitOnce_flagMarker {text name destination : List Char} :
    Text.splitOnce flagMarker text = some (name, destination) ↔
      text = name ++ flagMarker ++ destination ∧ ¬flagMarker <:+: name :=
  Text.splitOnce_cons_eq_some (by decide : '_' ∉ "out=".toList)

theorem pluginFlag?_eq_some {flag : String} {invocation : Invocation} :
    pluginFlag? flag = some invocation ↔
      invocation.name ≠ "" ∧ ¬flagMarker <:+: invocation.name.toList ∧
        ∃ destination,
          (undashed flag).toList = invocation.name.toList ++ flagMarker ++ destination ∧
          splitDestination destination =
            (invocation.parameter.toList, invocation.outputDirectory.toList) := by
  rw [undashed, String.toList_ofList]
  constructor
  · intro accepted
    obtain ⟨pieces, cut, read⟩ := Option.bind_eq_some_iff.1 accepted
    obtain ⟨whole, noMarker⟩ := splitOnce_flagMarker.1 cut
    dsimp only at read
    split at read
    · cases read
    · next nonempty =>
      cases read
      simp only [String.toList_ofList]
      exact ⟨by simpa using nonempty, noMarker, pieces.2, whole, rfl⟩
  · rintro ⟨nonempty, noMarker, destination, whole, parts⟩
    have cut := splitOnce_flagMarker.2 ⟨whole, noMarker⟩
    refine Option.bind_eq_some_iff.2 ⟨_, cut, ?_⟩
    simp [nonempty, parts]

/-- Only the dashes before a name are dropped. -/
theorem undashed_name {name : String} (isName : IsPluginName name) (rest : String) :
    (undashed ("--" ++ name ++ rest)).toList = name.toList ++ rest.toList := by
  obtain ⟨first, others, spelled⟩ : ∃ first others, name.toList = first :: others :=
    List.exists_cons_of_ne_nil (by simpa using isName.nonempty)
  have noDash : first ≠ '-' := by simpa [spelled] using isName.noDash
  simp [undashed, spelled, noDash]

theorem head?_undashed (flag : String) : (undashed flag).toList.head? ≠ some '-' := by
  intro dash
  have stopped := List.head?_dropWhile_not (· = '-') flag.toList
  rw [undashed, String.toList_ofList] at dash
  simp [dash] at stopped

theorem isPluginName_of_pluginFlag? {flag : String} {invocation : Invocation}
    (accepted : pluginFlag? flag = some invocation) : IsPluginName invocation.name := by
  obtain ⟨nonempty, noMarker, destination, whole, -⟩ := pluginFlag?_eq_some.1 accepted
  refine ⟨nonempty, fun dash => head?_undashed flag ?_, noMarker⟩
  rw [whole, List.append_assoc, List.head?_append, dash]
  rfl

/-- A flag is refused if nothing ends its name, or if its name is empty. -/
theorem pluginFlag?_eq_none {flag : String} :
    pluginFlag? flag = none ↔
      ¬flagMarker <:+: (undashed flag).toList ∨ flagMarker <+: (undashed flag).toList := by
  rw [← Text.splitOnce_eq_none, Option.eq_none_iff_forall_ne_some]
  constructor
  · intro refused
    cases cut : Text.splitOnce flagMarker (undashed flag).toList with
    | none => exact .inl rfl
    | some pieces =>
      obtain ⟨whole, noMarker⟩ := splitOnce_flagMarker.1 cut
      refine .inr ?_
      by_cases nameless : pieces.1 = []
      · rw [whole, nameless]
        exact List.prefix_append _ _
      · have accepted : pluginFlag? flag = some ⟨.ofList pieces.1,
            .ofList (splitDestination pieces.2).1, .ofList (splitDestination pieces.2).2⟩ :=
          pluginFlag?_eq_some.2 ⟨by simpa using nameless, by simpa using noMarker, pieces.2,
            by simpa using whole, by simp⟩
        exact absurd accepted (refused _)
  · intro either invocation accepted
    obtain ⟨nonempty, noMarker, destination, whole, -⟩ := pluginFlag?_eq_some.1 accepted
    have cut := splitOnce_flagMarker.2 ⟨whole, noMarker⟩
    rcases either with absent | ⟨rest, starts⟩
    · cases absent.symm.trans cut
    · have nameless : Text.splitOnce flagMarker (undashed flag).toList = some ([], rest) :=
        splitOnce_flagMarker.2 ⟨starts.symm, by simp [flagMarker]⟩
      have same := (Prod.mk.inj (Option.some.inj (nameless.symm.trans cut))).1
      exact nonempty (String.toList_inj.1 same.symm)

/-- A flag is read as it is written, and nothing else is read as a flag. -/
theorem pluginFlag?_syntax :
    (∀ name parameter directory : String, IsPluginName name → ':' ∉ parameter.toList →
      pluginFlag? ("--" ++ name ++ "_out=" ++ parameter ++ ":" ++ directory) =
        some ⟨name, parameter, directory⟩) ∧
    (∀ name directory : String, IsPluginName name → ':' ∉ directory.toList →
      pluginFlag? ("--" ++ name ++ "_out=" ++ directory) = some ⟨name, "", directory⟩) ∧
    (∀ (flag : String) (invocation : Invocation), pluginFlag? flag = some invocation →
      IsPluginName invocation.name ∧
        (undashed flag = invocation.name ++ "_out=" ++ invocation.parameter ++ ":" ++
            invocation.outputDirectory ∨
          invocation.parameter = "" ∧
            undashed flag = invocation.name ++ "_out=" ++ invocation.outputDirectory)) ∧
    ∀ flag : String, pluginFlag? flag = none ↔
      ¬"_out=".toList <:+: (undashed flag).toList ∨ "_out=".toList <+: (undashed flag).toList := by
  refine ⟨?_, ?_, ?_, fun _ => pluginFlag?_eq_none⟩
  · intro name parameter directory isName noColon
    refine pluginFlag?_eq_some.2 ⟨isName.nonempty, isName.noMarker,
      parameter.toList ++ ':' :: directory.toList, ?_, splitDestination_eq.2 (.inl ⟨rfl, noColon⟩)⟩
    have written := undashed_name isName ("_out=" ++ parameter ++ ":" ++ directory)
    simpa [String.append_assoc, flagMarker] using written
  · intro name directory isName noColon
    refine pluginFlag?_eq_some.2 ⟨isName.nonempty, isName.noMarker, directory.toList, ?_,
      splitDestination_eq.2 (.inr ⟨rfl, rfl, noColon⟩)⟩
    have written := undashed_name isName ("_out=" ++ directory)
    simpa [String.append_assoc, flagMarker] using written
  · intro flag invocation accepted
    refine ⟨isPluginName_of_pluginFlag? accepted, ?_⟩
    obtain ⟨-, -, destination, whole, parts⟩ := pluginFlag?_eq_some.1 accepted
    rcases splitDestination_eq.1 parts with ⟨rfl, -⟩ | ⟨noParameter, rfl, -⟩
    · refine .inl (String.toList_inj.1 ?_)
      simp [whole, flagMarker]
    · refine .inr ⟨by simpa using noParameter, String.toList_inj.1 ?_⟩
      simp [whole, flagMarker]

/-- A name may end like a marker, and a parameter may hold one. -/
theorem pluginFlag?_syntax_marked :
    IsPluginName "my_gen_out" ∧ ':' ∉ "a_out=b".toList ∧
      pluginFlag? "--my_gen_out_out=a_out=b:c:d" = some ⟨"my_gen_out", "a_out=b", "c:d"⟩ := by
  have isName : IsPluginName "my_gen_out" := ⟨by decide, by decide, by decide⟩
  have noColon : ':' ∉ "a_out=b".toList := by decide
  exact ⟨isName, noColon, pluginFlag?_syntax.1 "my_gen_out" "a_out=b" "c:d" isName noColon⟩

/-! ## The plugins of a command line -/

section

variable {plugins : Invocations} {flags : List String} {flag name : String}
  {invocation : Invocation}

theorem keys_insert (name : String) (invocation : Invocation) (plugins : Invocations) :
    (plugins.insert name invocation).map Prod.fst =
      if name ∈ plugins.map Prod.fst then plugins.map Prod.fst
      else plugins.map Prod.fst ++ [name] := by
  induction plugins with
  | nil => rfl
  | cons entry rest ih =>
    rw [Invocations.insert]
    split
    · next same => simp [same]
    · next differ =>
      have other : name ≠ entry.1 := Ne.symm differ
      simp only [List.map_cons, ih, List.mem_cons, other, false_or]
      split <;> rfl

/-- Inserting replaces what was stored under the name, and nothing else. -/
theorem mem_insert (distinct : (plugins.map Prod.fst).Nodup) {key : String} {stored : Invocation} :
    (key, stored) ∈ plugins.insert name invocation ↔
      key = name ∧ stored = invocation ∨ key ≠ name ∧ (key, stored) ∈ plugins := by
  induction plugins with
  | nil => simp [Invocations.insert]
  | cons entry rest ih =>
    rw [List.map_cons, List.nodup_cons] at distinct
    rw [Invocations.insert]
    split
    · next same =>
      -- What comes after the name that is replaced has other names.
      have later : (key, stored) ∈ rest → key ≠ name := by
        rintro member rfl
        exact distinct.1 (same ▸ List.mem_map_of_mem member)
      grind
    · next differ =>
      rw [List.mem_cons, ih distinct.2, List.mem_cons]
      grind

/-- The names in the flags that are accepted, in order. -/
def givenNames (flags : List String) : List String :=
  (flags.filterMap pluginFlag?).map (·.name)

/-- The last flag that is accepted with a name gives this invocation. -/
def LastGiven (flags : List String) (name : String) (invocation : Invocation) : Prop :=
  ∃ before flag after, flags = before ++ flag :: after ∧ pluginFlag? flag = some invocation ∧
    invocation.name = name ∧ name ∉ givenNames after

/-- The plugins that flags ask for: each name once, at the position of its first flag, with what its
last flag asks for. -/
structure Registered (flags : List String) (plugins : Invocations) : Prop where
  mem_keys : ∀ name, name ∈ plugins.map Prod.fst ↔ name ∈ givenNames flags
  ordered : (plugins.map Prod.fst).Pairwise fun first second =>
    (givenNames flags).idxOf first < (givenNames flags).idxOf second
  mem_iff : ∀ name invocation,
    (name, invocation) ∈ plugins ↔ LastGiven flags name invocation

theorem Registered.nodup (registered : Registered flags plugins) :
    (plugins.map Prod.fst).Nodup := by
  refine registered.ordered.imp ?_
  rintro first second less rfl
  exact Nat.lt_irrefl _ less

theorem registered_nil : Registered [] [] := by
  refine ⟨by simp [givenNames], .nil, fun name invocation => ?_⟩
  simp [LastGiven]

theorem givenNames_append (flags more : List String) :
    givenNames (flags ++ more) = givenNames flags ++ givenNames more := by
  simp [givenNames]

theorem lastGiven_snoc :
    LastGiven (flags ++ [flag]) name invocation ↔
      pluginFlag? flag = some invocation ∧ invocation.name = name ∨
        name ∉ givenNames [flag] ∧ LastGiven flags name invocation := by
  constructor
  · rintro ⟨before, found, after, split, accepted, named, last⟩
    rcases List.eq_nil_or_concat after with rfl | ⟨after, final, rfl⟩
    · obtain ⟨rfl, same⟩ := List.append_inj' split rfl
      cases same
      exact .inl ⟨accepted, named⟩
    · rw [List.concat_eq_append] at split last
      rw [← List.cons_append, ← List.append_assoc] at split
      obtain ⟨rfl, same⟩ := List.append_inj' split rfl
      cases same
      rw [givenNames_append, List.mem_append, not_or] at last
      exact .inr ⟨last.2, before, found, after, rfl, accepted, named, last.1⟩
  · rintro (⟨accepted, named⟩ | ⟨other, before, found, after, rfl, accepted, named, last⟩)
    · exact ⟨flags, flag, [], rfl, accepted, named, by simp [givenNames]⟩
    · refine ⟨before, found, after ++ [flag], by simp, accepted, named, ?_⟩
      rw [givenNames_append, List.mem_append, not_or]
      exact ⟨last, other⟩

theorem addFlag_refused (refused : pluginFlag? flag = none) : (addFlag plugins flag).1 = plugins := by
  rw [addFlag, refused]

theorem addFlag_accepted (accepted : pluginFlag? flag = some invocation) :
    (addFlag plugins flag).1 = plugins.insert invocation.name invocation := by
  rw [addFlag, accepted]

/-- A name that is new is given later than all before it. -/
theorem ordered_snoc {keys names : List String} (mem_keys : ∀ name, name ∈ keys ↔ name ∈ names)
    (ordered : keys.Pairwise fun first second => names.idxOf first < names.idxOf second) :
    (if name ∈ keys then keys else keys ++ [name]).Pairwise fun first second =>
      (names ++ [name]).idxOf first < (names ++ [name]).idxOf second := by
  have kept : keys.Pairwise fun first second =>
      (names ++ [name]).idxOf first < (names ++ [name]).idxOf second := by
    refine ordered.imp_of_mem fun {first second} isFirst isSecond less => ?_
    rwa [List.idxOf_append_of_mem ((mem_keys first).1 isFirst),
      List.idxOf_append_of_mem ((mem_keys second).1 isSecond)]
  split
  · exact kept
  · next new =>
    refine List.pairwise_append.2 ⟨kept, by simp, fun key isKey last isLast => ?_⟩
    obtain rfl := List.mem_singleton.1 isLast
    rw [List.idxOf_append_of_mem ((mem_keys key).1 isKey),
      List.idxOf_append_of_notMem (mt (mem_keys _).2 new)]
    exact Nat.lt_of_lt_of_le (List.idxOf_lt_length_of_mem ((mem_keys key).1 isKey)) (by simp)

theorem Registered.snoc (registered : Registered flags plugins) (flag : String) :
    Registered (flags ++ [flag]) (addFlag plugins flag).1 := by
  cases read : pluginFlag? flag with
  | none =>
    have nothing : givenNames [flag] = [] := by simp [givenNames, read]
    have same : givenNames (flags ++ [flag]) = givenNames flags := by
      rw [givenNames_append, nothing, List.append_nil]
    rw [addFlag_refused read]
    refine ⟨?_, ?_, fun name invocation => ?_⟩
    · rw [same]
      exact registered.mem_keys
    · rw [same]
      exact registered.ordered
    · simp [lastGiven_snoc, read, nothing, registered.mem_iff]
  | some given =>
    have single : givenNames [flag] = [given.name] := by simp [givenNames, read]
    have names : givenNames (flags ++ [flag]) = givenNames flags ++ [given.name] := by
      rw [givenNames_append, single]
    rw [addFlag_accepted read]
    refine ⟨fun name => ?_, ?_, fun name invocation => ?_⟩
    · rw [keys_insert, names, List.mem_append, ← registered.mem_keys]
      split <;> simp_all
    · rw [keys_insert, names]
      exact ordered_snoc registered.mem_keys registered.ordered
    · rw [mem_insert registered.nodup, lastGiven_snoc, read, single, registered.mem_iff]
      grind

theorem Registered.append (registered : Registered flags plugins) (more : List String) :
    Registered (flags ++ more) (addFlags plugins more).1 := by
  induction more generalizing flags plugins with
  | nil =>
    rw [List.append_nil]
    exact registered
  | cons flag rest ih =>
    have next := ih (registered.snoc flag)
    rw [List.append_assoc] at next
    exact next

theorem addFlags_append (plugins : Invocations) (before after : List String) :
    (addFlags plugins (before ++ after)).1 = (addFlags (addFlags plugins before).1 after).1 := by
  induction before generalizing plugins with
  | nil => rfl
  | cons flag rest ih => exact ih (addFlag plugins flag).1

/-- The plugins of a command line are registered under the names in the flags that are accepted, and
a flag that is not accepted changes nothing, wherever it stands. -/
theorem invocations_registered (flags : List String) :
    Registered flags (invocations flags).1 ∧ ((invocations flags).1.map Prod.fst).Nodup ∧
      (∀ entry ∈ (invocations flags).1, entry.2.name = entry.1) ∧
      ∀ before refused after, flags = before ++ refused :: after → pluginFlag? refused = none →
        (invocations flags).1 = (invocations (before ++ after)).1 := by
  have registered : Registered flags (invocations flags).1 := registered_nil.append flags
  refine ⟨registered, registered.nodup, fun entry member => ?_, ?_⟩
  · obtain ⟨_, _, _, _, _, named, _⟩ := (registered.mem_iff entry.1 entry.2).1 member
    exact named
  · rintro before bad after rfl refused
    rw [invocations, invocations, addFlags_append, addFlags_append]
    show (addFlags (addFlag _ bad).1 after).1 = _
    rw [addFlag_refused refused]

/-- A plugin that is given twice, with a flag that is not accepted in between. -/
theorem invocations_registered_twice :
    pluginFlag? "--bogus" = none ∧
      (invocations ["--a_out=one", "--b_out=two", "--bogus", "--a_out=x:three"]).1 =
        (invocations ["--a_out=one", "--b_out=two", "--a_out=x:three"]).1 ∧
      (invocations ["--a_out=one", "--b_out=two", "--bogus", "--a_out=x:three"]).1 =
        [("a", ⟨"a", "x", "three"⟩), ("b", ⟨"b", "", "two"⟩)] := by
  have refused : pluginFlag? "--bogus" = none := by decide
  refine ⟨refused, ?_, by decide⟩
  exact (invocations_registered _).2.2.2 ["--a_out=one", "--b_out=two"] "--bogus"
    ["--a_out=x:three"] rfl refused

end

end SdlCompiler.Command
