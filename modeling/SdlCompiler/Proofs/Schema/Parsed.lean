import SdlCompiler.Proofs.Document.Locations
import SdlCompiler.Proofs.Numeric.Fixed
import SdlCompiler.Proofs.Schema.Precedence

/-!
# What cannot be wrong with a text

Some errors are about documents that no text writes. A document that is read from a text has no
type that is non-null twice, no location that does not exist and no integer that cannot be read,
so that the compiler never reports one (`compile_blameless`).
-/

namespace SdlCompiler.Schema

open Document (Definition)
open Outcome

variable {name source : String} {document : Document} {e : SchemaError}

/-! ## Errors and their causes -/

/-- Whatever is reported of a document has a cause in it: a definition that is refused, a part of
one that is at fault, or a root that is no object. -/
theorem resolve_cause {abort : Abort SchemaError} (failed : resolve name document = .error abort) :
    ∃ e, abort = .error e ∧ (FailsFirst Refused document e ∨
      (∃ d ∈ document, Blames d.types d.values d.locations e) ∨
      ∃ n, e = .unresolvedType n "the implicit schema definition") := by
  have passes := resolve_passes name document
  rw [failed] at passes
  cases passes with
  | refused refusal =>
    exact ⟨_, rfl, .inl (Names.register_error (congrArg Prod.snd refusal))⟩
  | unbuilt given failure =>
    obtain ⟨e, rfl, before, d, after, rfl, -, unbuilt⟩ :=
      given.populate_error (congrArg Prod.snd failure)
    exact ⟨e, rfl, .inr (.inl ⟨d, by simp, Names.build_blames unbuilt⟩)⟩
  | rootless given _ _ _ failure =>
    obtain ⟨n, -, rfl⟩ := Names.synthesize_error given.listed (congrArg Prod.snd failure)
    exact ⟨_, rfl, .inr (.inr ⟨n, rfl⟩)⟩

/-- What is wrong with a part of a document is reported of a definition that has the part. -/
theorem exists_blamed (failed : compile name source = .error (.error e))
    (inPart : IsPartError e) (notReference : ∀ n referrer, e ≠ .unresolvedType n referrer) :
    ∃ document, Document.parse source = .ok document ∧
      ∃ d ∈ document, Blames d.types d.values d.locations e := by
  rw [compile] at failed
  cases parsed : Document.parse source with
  | error abort =>
    rw [parsed] at failed
    cases failed
    -- A text that is no document has no parts.
    rcases Document.parse_refused parsed with rfl | ⟨literal, rfl⟩
    · exact inPart.elim
    · exact inPart.elim
  | ok document =>
    rw [parsed] at failed
    obtain ⟨e, ⟨⟩, cause⟩ := resolve_cause failed
    rcases cause with ⟨_, _, _, _, _, refused⟩ | blamed | ⟨n, rfl⟩
    · cases refused with
      | unsupported | secondSchema | repeated => exact inPart.elim
    · exact ⟨document, rfl, blamed⟩
    · exact absurd rfl (notReference _ _)

/-! ## Documents that are read -/

theorem exists_places {locations : List String}
    (known : ∀ l ∈ locations, (Location.ofName? l).isSome) :
    ∃ places, locations = places.map Location.name ∧
      ∀ directive, locations.mapM (Names.location directive) = .ok places := by
  obtain ⟨places, found⟩ := forall₂_of_forall_exists fun l member =>
    Option.isSome_iff_exists.1 (known l member)
  have same : places.map Location.name = locations.map id :=
    map_eq_of_forall₂ (found.imp fun _ _ => Names.ofName?_eq_some)
  rw [List.map_id] at same
  exact ⟨places, same.symm, fun directive =>
    mapM_eq_ok.2 (found.imp fun _ _ => Names.location_eq_ok.2)⟩

/-- A document that is read from a text has no type that is non-null twice, no variable, integers
of 64 bits only, each written in one way, and the locations that the text names. So no error of the
compiler is about such a type, about a location or about an integer. -/
theorem compile_blameless (name source : String) :
    (∀ document, Document.parse source = .ok document →
      (∀ d ∈ document, (∀ type ∈ d.types, type.NonNullOnce) ∧
        (∀ v ∈ d.values, v.variableNames = [] ∧
          ∀ text ∈ v.ints, ∃ n : Int64, text = toString n.toInt) ∧
        ∃ places, d.locations = places.map Location.name ∧
          ∀ directive, d.locations.mapM (Names.location directive) = .ok places) ∧
      ∃ pieces : List (List Document.Token), Document.Token.lex source.toList = pieces.flatten ∧
        List.Forall₂ (fun piece definition => ∀ d, definition = .directive d →
          Document.Declares piece d) pieces document) ∧
    (∀ context, compile name source ≠ .error (.error (.nonNullOfNonNull context))) ∧
    (∀ place directive,
      compile name source ≠ .error (.error (.unknownLocation place directive))) ∧
    ∀ text context, compile name source = .error (.error (.unknownValue text context)) →
      ∃ document, Document.parse source = .ok document ∧
        (∃ d ∈ document, ∃ v ∈ d.values, text ∈ v.floats ∧
          Numeric.Binary64.readFinite? text.toList = none) ∧
        ∀ d ∈ document, ∀ v ∈ d.values, text ∉ v.ints := by
  refine ⟨fun document parsed => ?_, fun context failed => ?_, fun place directive failed => ?_,
    fun text context failed => ?_⟩
  · have written := Document.parse_written parsed
    refine ⟨fun d member => ⟨fun type typed => ?_, fun v valued => ?_, ?_⟩,
      Document.parse_pieces parsed⟩
    · exact ((written d member).types type typed).nonNullOnce
    · have spelled := (written d member).values v valued
      exact ⟨spelled.written.variableNames, spelled.canonical⟩
    · exact exists_places (written d member).locations
  · obtain ⟨document, parsed, d, member, type, typed, twice⟩ :=
      exists_blamed failed trivial (by simp)
    exact twice ((Document.parse_written parsed d member).types type typed).nonNullOnce
  · obtain ⟨document, parsed, d, member, listed, unknown⟩ :=
      exists_blamed failed trivial (by simp)
    have known := (Document.parse_written parsed d member).locations place listed
    rw [unknown] at known
    cases known
  · obtain ⟨document, parsed, d, member, v, valued, unread⟩ :=
      exists_blamed failed trivial (by simp)
    have written := Document.parse_written parsed
    rcases unread with ⟨occurs, large⟩ | ⟨occurs, infinite⟩
    · obtain ⟨n, rfl⟩ := ((written d member).values v valued).canonical text occurs
      rw [Numeric.int64?_toString] at large
      cases large
    · refine ⟨document, parsed, ⟨d, member, v, valued, occurs, infinite⟩, ?_⟩
      -- The text of an integer would read as a finite number.
      intro d member v valued occursToo
      obtain ⟨n, rfl⟩ := ((written d member).values v valued).canonical text occursToo
      obtain ⟨x, read⟩ := Numeric.Binary64.exists_readFinite?_toString n
      rw [infinite] at read
      cases read

/-- A text with a mark too many, a zero with a sign, a bar before the first location, and a float
that is beyond all finite ones. -/
def loudText : String :=
  "directive @loud(at: [Int!!]! = [-0], by: Float = 1e999) repeatable on | FIELD | OBJECT"

/-- All is in order with the type, the integer and the locations. What is reported is the float. -/
theorem compile_blameless_loud :
    (∃ document, Document.parse loudText = .ok document ∧
      (∀ d ∈ document, ∀ v ∈ d.values, ∀ text ∈ v.ints, ∃ n : Int64, text = toString n.toInt) ∧
      document.flatMap (fun d => d.values.flatMap Value.ints) = ["0"] ∧
      document.flatMap Definition.locations = ["FIELD", "OBJECT"]) ∧
    compile "loud" loudText = .error (.error (.unknownValue "inf" "@loud.by")) ∧
    ∃ document, Document.parse loudText = .ok document ∧
      ∃ d ∈ document, ∃ v ∈ d.values, "inf" ∈ v.floats := by
  have parts : ((Document.parse loudText).map fun document =>
      (document.flatMap (fun d => d.values.flatMap Value.ints),
        document.flatMap Definition.locations)).toOption =
      some (["0"], ["FIELD", "OBJECT"]) := by decide +kernel
  have failed : compile "loud" loudText = .error (.error (.unknownValue "inf" "@loud.by")) :=
    eq_error_of_error? (by decide +kernel)
  obtain ⟨ofDocument, -, -, ofValue⟩ := compile_blameless "loud" loudText
  refine ⟨?_, failed, ?_⟩
  · cases parsed : Document.parse loudText with
    | error abort =>
      rw [parsed] at parts
      cases parts
    | ok document =>
      rw [parsed] at parts
      obtain ⟨ints, locations⟩ := Prod.mk.inj (Option.some.inj parts)
      obtain ⟨all, -⟩ := ofDocument document parsed
      exact ⟨document, rfl, fun d member v valued => ((all d member).2.1 v valued).2, ints,
        locations⟩
  · obtain ⟨document, parsed, ⟨d, member, v, valued, occurs, -⟩, -⟩ := ofValue _ _ failed
    exact ⟨document, parsed, d, member, v, valued, occurs⟩

end SdlCompiler.Schema
