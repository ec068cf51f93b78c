import SdlCompiler.Plugin.Exchange
import SdlCompiler.Plugin.Run
import SdlCompiler.Proofs.Outcome
import SdlCompiler.Proofs.Wire.RoundTrip

/-!
# Both ends of an exchange

A generator's outcome travels to the compiler as a response, in which the text of an error tells a
failure from a success. So the compiler learns of the outcome as it was, but for one: a failure with
an empty text is taken for a success without edits.
-/

namespace SdlCompiler.Plugin

open Outcome Wire

variable {generate : Generator} {request : Request} {sink : Sink}
  {executable : String} {execution : Execution} {input output : List UInt8}

/-- What the compiler is to be told of a generator's outcome. -/
def verdict (executable : String) :
    Except String (List Edit) → Except PluginError Response
  | .ok edits => .ok { edits }
  | .error text => .error (.reported executable text)

/-- A program that answers its input by an exchange with the generator has come to a good end. It
may have ended before all of its input was sent. -/
structure Serves (generate : Generator) (input : List UInt8) (execution : Execution) : Prop where
  success : execution.status = .exited 0
  sent : execution.sendFault? = none
  awaited : execution.waitFault = none
  exchanged : ∃ sink, exchange { bytes := input } sink generate = .ok execution.output

/-! ## The generator's end -/

theorem exchange_eq_ok :
    exchange { bytes := input } sink generate = .ok output ↔
      ∃ request, Message.decode? input = some request ∧
        output = Message.encode (respond generate request) ∧ sink.write output = .ok () := by
  constructor
  · intro exchanged
    obtain ⟨bytes, ⟨⟩, exchanged⟩ := bind_eq_ok.1 exchanged
    cases decoded : (Message.decode? input : Option Request) with
    | none =>
      rw [decoded] at exchanged
      cases exchanged
    | some request =>
      rw [decoded] at exchanged
      obtain ⟨⟨⟩, written, ⟨⟩⟩ := bind_eq_ok.1 exchanged
      exact ⟨request, rfl, rfl, mapError_eq_ok.1 written⟩
  · rintro ⟨request, decoded, rfl, written⟩
    refine bind_eq_ok.2 ⟨input, rfl, ?_⟩
    rw [decoded]
    exact bind_eq_ok.2 ⟨(), mapError_eq_ok.2 written, rfl⟩

/-- A generator is asked for the request that was sent, and if that can be read it is answered. -/
theorem exchange_encode_eq_ok (fits : (Message.encode request).length < 2 ^ 64) :
    exchange { bytes := Message.encode request } sink generate = .ok output ↔
      depth request ≤ 100 ∧ output = Message.encode (respond generate request) ∧
        sink.write output = .ok () := by
  rw [exchange_eq_ok, Message.decode?_encode request fits]
  by_cases shallow : depth request ≤ 100
  · simp [shallow]
  · simp [shallow]

/-! ## The compiler's end -/

theorem depth_response (response : Response) : depth response ≤ 1 := by
  show nesting (fun _ : Edit => 0) response.edits ≤ 1
  induction response.edits with
  | nil => exact Nat.zero_le 1
  | cons edit rest ih => exact Nat.max_le.2 ⟨Nat.le_refl 1, ih⟩

theorem readResponse_of_serves (serves : Serves generate input execution) {response : Response}
    (fits : (Message.encode response).length < 2 ^ 64)
    (wrote : execution.output = Message.encode response) :
    readResponse executable execution =
      if response.error = "" then .ok response
      else .error (.reported executable response.error) := by
  have shallow : depth response ≤ 100 := (depth_response response).trans (by decide)
  have decoded : Message.decode? execution.output = some response := by
    rw [wrote, Message.decode?_encode response fits, if_pos shallow]
  unfold readResponse
  rw [serves.awaited, serves.sent, serves.success, decoded]
  rfl

theorem run_of_start {host : Host} {searchPath : List String} {name path : String}
    {started : Host.Start} (found : find host searchPath name = .ok path)
    (starts : host.start path = .ok started) :
    run host searchPath name request =
      (some ⟨started.place, Message.encode request⟩,
        readResponse (executableName name) (started.execute (Message.encode request))) := by
  unfold run
  rw [found]
  dsimp only
  rw [starts]

/-- What the compiler takes a response for is the generator's outcome, unless that is an error
without a text. -/
theorem read_respond_eq_verdict (executable : String) :
    (if (respond generate request).error = "" then .ok (respond generate request)
      else .error (.reported executable (respond generate request).error)) =
        verdict executable (generate request) ↔ generate request ≠ .error "" := by
  unfold respond verdict
  cases generate request with
  | ok edits => simp
  | error text =>
    by_cases empty : text = ""
    · simp [empty]
    · simp [empty]

/-- Both ends of an exchange. A request that nests within the limit is answered by the generator's
end whatever the generator does. Where the program of a plugin is such an end and exits well, it was
sent the request, and its output is the generator's answer to that very request. The compiler then
learns of the generator's outcome as it was exactly if that is no error with an empty text, and
takes such an error for a success without edits. -/
theorem run_eq_verdict_iff (generate : Generator) (request : Request)
    (requestFits : (Message.encode request).length < 2 ^ 64)
    (replyFits : (Message.encode (respond generate request)).length < 2 ^ 64) :
    (∀ sink : Sink, depth request ≤ 100 →
      sink.write (Message.encode (respond generate request)) = .ok () →
      exchange { bytes := Message.encode request } sink generate =
        .ok (Message.encode (respond generate request))) ∧
    ∀ host searchPath name path started, find host searchPath name = .ok path →
      host.start path = .ok started →
      Serves generate (Message.encode request) (started.execute (Message.encode request)) →
      (started.execute (Message.encode request)).output =
        Message.encode (respond generate request) ∧
      (run host searchPath name request).1 = some ⟨started.place, Message.encode request⟩ ∧
      ((run host searchPath name request).2 = verdict (executableName name) (generate request) ↔
        generate request ≠ .error "") ∧
      (generate request = .error "" → (run host searchPath name request).2 = .ok {}) := by
  constructor
  · intro sink shallow written
    exact (exchange_encode_eq_ok requestFits).2 ⟨shallow, rfl, written⟩
  · intro host searchPath name path started found starts serves
    obtain ⟨sink, exchanged⟩ := serves.exchanged
    obtain ⟨-, wrote, -⟩ := (exchange_encode_eq_ok requestFits).1 exchanged
    rw [run_of_start found starts, readResponse_of_serves serves replyFits wrote]
    refine ⟨wrote, rfl, read_respond_eq_verdict _, fun failed => ?_⟩
    simp [respond, failed]

/-! ## A plugin that lists files -/

/-- One empty file for each name, and the parameter as an error where there is no name. -/
def listing : Generator := fun request =>
  if request.generate = [] then .error request.parameter
  else .ok (request.generate.map fun name => { name := name ++ ".txt" })

/-- What the plugin does with its input. -/
def runListing (input : List UInt8) : Execution :=
  match exchange { bytes := input } {} listing with
  | .ok output => { output }
  | .error _ => { status := .exited 1 }

def listingHost : Host where
  tree :=
    { entries := [(["plugins"], .directory), (["plugins", "graphqlc-gen-y"], .file [] 0o755)] }
  programs := [(["plugins", "graphqlc-gen-y"], { execute := fun _ => runListing })]

theorem listingHost_start :
    listingHost.start "plugins/graphqlc-gen-y" =
      .ok ⟨["plugins", "graphqlc-gen-y"], runListing⟩ := by
  have direct : listingHost.commandFile "plugins/graphqlc-gen-y" = "plugins/graphqlc-gen-y" := by
    decide +kernel
  have located : listingHost.tree.locate "plugins/graphqlc-gen-y" =
      .ok ["plugins", "graphqlc-gen-y"] := by
    decide +kernel
  unfold Host.start
  simp only [direct, located]
  rfl

theorem runListing_serves (fits : (Message.encode request).length < 2 ^ 64)
    (shallow : depth request ≤ 100) :
    Serves listing (Message.encode request) (runListing (Message.encode request)) := by
  have exchanged : exchange { bytes := Message.encode request } {} listing =
      .ok (Message.encode (respond listing request)) :=
    (exchange_encode_eq_ok fits).2 ⟨shallow, rfl, by simp [Sink.write]⟩
  unfold runListing
  rw [exchanged]
  exact ⟨rfl, rfl, rfl, {}, exchanged⟩

theorem run_eq_verdict_listing :
    (run listingHost ["plugins"] "y" { generate := ["a", "b"] }).2 =
      .ok { edits := [{ name := "a.txt" }, { name := "b.txt" }] } ∧
    (run listingHost ["plugins"] "y" { parameter := "p" }).2 =
      .error (.reported "graphqlc-gen-y" "p") := by
  have found : find listingHost ["plugins"] "y" = .ok "plugins/graphqlc-gen-y" := by
    decide +kernel
  constructor
  · have fits : (Message.encode { generate := ["a", "b"] : Request }).length < 2 ^ 64 := by
      decide +kernel
    obtain ⟨-, -, told, -⟩ :=
      (run_eq_verdict_iff listing { generate := ["a", "b"] } fits (by decide +kernel)).2 _ _ _ _ _
        found listingHost_start (runListing_serves fits (by decide +kernel))
    exact told.2 (by decide)
  · have fits : (Message.encode { parameter := "p" : Request }).length < 2 ^ 64 := by
      decide +kernel
    obtain ⟨-, -, told, -⟩ :=
      (run_eq_verdict_iff listing { parameter := "p" } fits (by decide +kernel)).2 _ _ _ _ _
        found listingHost_start (runListing_serves fits (by decide +kernel))
    exact told.2 (by decide)

/-- The generator fails, and the compiler is told of a success. -/
theorem run_empty_error :
    listing {} = .error "" ∧
    Serves listing (Message.encode { : Request }) (runListing (Message.encode { : Request })) ∧
    (run listingHost ["plugins"] "y" {}).2 = .ok {} ∧
    (run listingHost ["plugins"] "y" {}).2 ≠ verdict "graphqlc-gen-y" (listing {}) := by
  have taken : (run listingHost ["plugins"] "y" {}).2 = .ok {} := by decide +kernel
  refine ⟨rfl, runListing_serves (by decide +kernel) (by decide +kernel), taken, ?_⟩
  rw [taken]
  nofun

end SdlCompiler.Plugin
