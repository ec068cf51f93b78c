import SdlCompiler.Compiler.Run
import SdlCompiler.Proofs.Output.Failure
import SdlCompiler.Proofs.Schema.Soundness
import SdlCompiler.Proofs.Wire.Conversion

/-!
# The course of a run

If a schema file is refused, no plugin is started and the file tree stays as it is. Else the plugins
run one after the other, each after the responses of those before it were merged, up to the first
that fails or whose response cannot be merged.
-/

namespace SdlCompiler.Compiler

open SdlCompiler.Outcome

variable {host : Plugin.Host} {config : Configuration} {searchPath : List String}
  {files : List Wire.File} {tree : FileTree} {path : String}

/-! ## Schema files -/

def Compiles (tree : FileTree) (path : String) (file : Schema.File) : Prop :=
  ∃ source, tree.readText path = .ok source ∧ Schema.compile path source = .ok file

/-- The schema file cannot be read, or its text is in error. -/
inductive Refused (tree : FileTree) (path : String) : CompilerError → Prop
  | unreadable {cause : SystemError} : tree.readText path = .error cause →
      Refused tree path (.sourceRead path cause)
  | invalid {source : String} {cause : SchemaError} : tree.readText path = .ok source →
      Schema.compile path source = .error (.error cause) → Refused tree path (.build path cause)

theorem compileFile_of_compiles {file : Schema.File} (compiles : Compiles tree path file) :
    compileFile tree path = .ok file := by
  obtain ⟨source, text, success⟩ := compiles
  unfold compileFile
  rw [text]
  dsimp only [Except.mapError, bind, Except.bind]
  rw [success]

theorem compileFile_of_refused {e : CompilerError} (refused : Refused tree path e) :
    compileFile tree path = .error (.error e) := by
  unfold compileFile
  cases refused with
  | unreadable text =>
    rw [text]
    rfl
  | invalid text failed =>
    rw [text]
    dsimp only [Except.mapError, bind, Except.bind]
    rw [failed]
    rfl

/-- Every file that compiles can be sent. -/
theorem exists_sent {compiled : List Schema.File}
    (all : List.Forall₂ (Compiles tree) config.files compiled) :
    ∃ wires, compiled.mapM Wire.File.ofSchema = .ok wires := by
  refine exists_mapM_eq_ok.2 fun file member => ?_
  obtain ⟨path, -, source, -, success⟩ := exists_of_forall₂ all.flip member
  obtain ⟨wire, made, -⟩ := Wire.exists_ofSchema (Schema.sound_of_compile success).1
  exact ⟨wire, made⟩

/-! ## Plugins -/

/-- A plugin is asked for its response to a request with all of the files and its own parameter:
what was started for it, and what it answered. -/
inductive Asked (host : Plugin.Host) (searchPath : List String) (files : List Wire.File)
    (tree : FileTree) (name : String) (invocation : Invocation) :
    Option Plugin.Launch → Except Plugin.PluginError Wire.Response → Prop
  | notStarted {cause : Plugin.PluginError} :
      Plugin.run { host with tree } searchPath name
        (.ofFiles .compiler invocation.parameter files) = (none, .error cause) →
      Asked host searchPath files tree name invocation none (.error cause)
  | started {program : Place} {request : List UInt8}
      {answer : Except Plugin.PluginError Wire.Response} :
      request = Wire.Message.encode (Wire.Request.ofFiles .compiler invocation.parameter files) →
      Plugin.run { host with tree } searchPath name
        (.ofFiles .compiler invocation.parameter files) = (some ⟨program, request⟩, answer) →
      Asked host searchPath files tree name invocation (some ⟨program, request⟩) answer

/-- Whatever is started is sent the request, and only what was started answers. -/
theorem run_cases (host : Plugin.Host) (searchPath : List String) (name : String)
    (request : Wire.Request) :
    (∃ cause, Plugin.run host searchPath name request = (none, .error cause)) ∨
      ∃ program answer, Plugin.run host searchPath name request =
        (some ⟨program, Wire.Message.encode request⟩, answer) := by
  unfold Plugin.run
  dsimp only
  split
  · exact .inl ⟨_, rfl⟩
  · split
    · exact .inl ⟨_, rfl⟩
    · exact .inr ⟨_, _, rfl⟩

/-- Plugins ran one after the other, and their responses were merged in turn: the programs that were
started, and the tree with all that the plugins gave. -/
inductive Merged (host : Plugin.Host) (searchPath : List String) (files : List Wire.File) :
    FileTree → Invocations → List Plugin.Launch → FileTree → Prop
  | none {tree : FileTree} : Merged host searchPath files tree [] [] tree
  | next {tree middle last : FileTree} {name : String} {invocation : Invocation}
      {rest : Invocations} {launch : Plugin.Launch} {launches : List Plugin.Launch}
      {response : Wire.Response} :
      Asked host searchPath files tree name invocation (some launch) (.ok response) →
      Output.apply invocation.outputDirectory tree response.edits = (middle, .ok ()) →
      Merged host searchPath files middle rest launches last →
      Merged host searchPath files tree ((name, invocation) :: rest) (launch :: launches) last

/-- How the plugins of a run end: all of them merged, or one that fails after those before it. -/
inductive Ends (host : Plugin.Host) (searchPath : List String) (files : List Wire.File)
    (tree : FileTree) (plugins : Invocations) : Outcome → Prop
  | finished {last : FileTree} {launches : List Plugin.Launch} :
      Merged host searchPath files tree plugins launches last →
      Ends host searchPath files tree plugins { tree := last, launches }
  | pluginFailed {before rest : Invocations} {name : String} {invocation : Invocation}
      {last : FileTree} {launches : List Plugin.Launch} {launch? : Option Plugin.Launch}
      {cause : Plugin.PluginError} :
      plugins = before ++ (name, invocation) :: rest →
      Merged host searchPath files tree before launches last →
      Asked host searchPath files last name invocation launch? (.error cause) →
      Ends host searchPath files tree plugins
        { tree := last, launches := launches ++ launch?.toList,
          result := .error (.plugin name cause) }
  | mergeFailed {before rest : Invocations} {name : String} {invocation : Invocation}
      {last left : FileTree} {launches : List Plugin.Launch} {launch : Plugin.Launch}
      {response : Wire.Response} {cause : Output.OutputError} :
      plugins = before ++ (name, invocation) :: rest →
      Merged host searchPath files tree before launches last →
      Asked host searchPath files last name invocation (some launch) (.ok response) →
      Output.FailsWithin invocation.outputDirectory last response.edits left cause →
      Ends host searchPath files tree plugins
        { tree := left, launches := launches ++ [launch], result := .error (.output name cause) }

/-- A plugin that is merged goes before those that run after it. -/
theorem Ends.after {tree middle : FileTree} {name : String} {invocation : Invocation}
    {rest : Invocations} {launch : Plugin.Launch} {response : Wire.Response} {outcome : Outcome}
    (asked : Asked host searchPath files tree name invocation (some launch) (.ok response))
    (applied : Output.apply invocation.outputDirectory tree response.edits = (middle, .ok ()))
    (ends : Ends host searchPath files middle rest outcome) :
    Ends host searchPath files tree ((name, invocation) :: rest)
      { outcome with launches := launch :: outcome.launches } := by
  cases ends with
  | finished merged => exact .finished (.next asked applied merged)
  | pluginFailed split merged failed =>
    subst split
    exact .pluginFailed rfl (.next asked applied merged) failed
  | mergeFailed split merged answered failed =>
    subst split
    exact .mergeFailed rfl (.next asked applied merged) answered failed

theorem runPlugins_ends (host : Plugin.Host) (searchPath : List String) (files : List Wire.File)
    (tree : FileTree) (plugins : Invocations) :
    Ends host searchPath files tree plugins
      (runPlugins { host with tree } searchPath files plugins) := by
  -- Each plugin starts from the tree that those before it gave, so the tree is not fixed.
  induction plugins generalizing tree with
  | nil => exact .finished .none
  | cons plugin rest ih =>
    obtain ⟨name, invocation⟩ := plugin
    unfold runPlugins runPlugin
    dsimp only
    rcases run_cases { host with tree } searchPath name
      (.ofFiles .compiler invocation.parameter files) with ⟨cause, ran⟩ | ⟨program, answer, ran⟩
    · rw [ran]
      exact .pluginFailed rfl .none (.notStarted ran)
    · rw [ran]
      have asked : Asked host searchPath files tree name invocation _ answer := .started rfl ran
      cases answer with
      | error cause => exact .pluginFailed rfl .none asked
      | ok response =>
        dsimp only
        rcases applied : Output.apply invocation.outputDirectory tree response.edits with
          ⟨middle, result⟩
        cases result with
        | error cause => exact .mergeFailed rfl .none asked (Output.apply_error applied)
        | ok _ => exact (ih middle).after asked applied

/-! ## Runs -/

/-- If files compile up to one that is refused, the run gives the error of that file, starts no
plugin and leaves the tree as it is. If all files compile, all of them can be sent, and the run ends
as its plugins do. -/
theorem run_safe (host : Plugin.Host) (config : Configuration) :
    (∀ before path after e, config.files = before ++ path :: after →
      (∀ p ∈ before, ∃ file, Compiles host.tree p file) → Refused host.tree path e →
        run host config = .ok { tree := host.tree, launches := [], result := .error e }) ∧
    ∀ compiled, List.Forall₂ (Compiles host.tree) config.files compiled →
      ∃ files outcome, compiled.mapM Wire.File.ofSchema = .ok files ∧
        run host config = .ok outcome ∧
        Ends host config.searchPath files host.tree config.plugins outcome := by
  constructor
  · intro before path after e split compiles refused
    have passed : ∀ p ∈ before, ∃ file, compileFile host.tree p = .ok file := by
      intro p member
      obtain ⟨file, success⟩ := compiles p member
      exact ⟨file, compileFile_of_compiles success⟩
    unfold run compileFiles
    rw [split, mapM_eq_error passed (compileFile_of_refused refused)]
  · intro compiled all
    obtain ⟨files, made⟩ := exists_sent all
    have success : config.files.mapM (compileFile host.tree) = .ok compiled :=
      mapM_eq_ok.2 (all.imp fun _ _ => compileFile_of_compiles)
    refine ⟨files, _, made, ?_,
      runPlugins_ends host config.searchPath files host.tree config.plugins⟩
    unfold run compileFiles
    rw [success]
    dsimp only
    rw [made]
    rfl

/-- A schema file, and a plugin whose second edit names a directory. -/
def directoryHost (source : String) : Plugin.Host where
  tree :=
    { entries := [(["a.graphql"], .file source.toUTF8.toList 0o644), (["plugins"], .directory),
        (["plugins", "graphqlc-gen-y"], .file [] 0o755)] }
  programs :=
    [(["plugins", "graphqlc-gen-y"],
      { execute := fun _ _ =>
          { output := Wire.Message.encode (Wire.Response.mk ""
              [{ name := "done.txt", content := "1" }, { name := "new/f/", content := "x" }]) } })]

def validHost : Plugin.Host :=
  directoryHost "type Query \x7b a: Int \x7d"

/-- Sixteen lists around the type of a field. -/
def crashingHost : Plugin.Host :=
  directoryHost "type Query \x7b a: [[[[[[[[[[[[[[[[Int]]]]]]]]]]]]]]]] \x7d"

def directoryConfiguration (files : List String) : Configuration where
  files := files
  plugins := [("y", ⟨"y", "", "out"⟩)]
  searchPath := ["plugins"]

theorem exists_compiles_validHost : ∃ file, Compiles validHost.tree "a.graphql" file := by
  have text : validHost.tree.readText "a.graphql" = .ok "type Query \x7b a: Int \x7d" := by
    decide +kernel
  have success : (Schema.compile "a.graphql" "type Query \x7b a: Int \x7d").isOk = true := by
    decide +kernel
  obtain ⟨file, compiled⟩ := exists_of_isOk success
  exact ⟨file, _, text, compiled⟩

theorem run_safe_directory :
    run validHost (directoryConfiguration ["a.graphql", "b.graphql"]) =
      .ok { tree := validHost.tree, launches := [],
            result := .error (.sourceRead "b.graphql" .notFound) } ∧
    ∃ compiled files outcome, List.Forall₂ (Compiles validHost.tree) ["a.graphql"] compiled ∧
      compiled.mapM Wire.File.ofSchema = .ok files ∧
      run validHost (directoryConfiguration ["a.graphql"]) = .ok outcome ∧
      Ends validHost ["plugins"] files validHost.tree [("y", ⟨"y", "", "out"⟩)] outcome := by
  have compiles := exists_compiles_validHost
  have missing : Refused validHost.tree "b.graphql" (.sourceRead "b.graphql" .notFound) :=
    .unreadable (by decide +kernel)
  constructor
  · exact (run_safe validHost (directoryConfiguration ["a.graphql", "b.graphql"])).1
      ["a.graphql"] "b.graphql" [] _ rfl (List.forall_mem_singleton.2 compiles) missing
  · obtain ⟨file, success⟩ := compiles
    have all : List.Forall₂ (Compiles validHost.tree) ["a.graphql"] [file] := .cons success .nil
    obtain ⟨files, outcome, course⟩ :=
      (run_safe validHost (directoryConfiguration ["a.graphql"])).2 [file] all
    exact ⟨[file], files, outcome, all, course⟩

/-- The directory above a file that could not be written stays, so that the tree is not the one that
the edits before gave. And a type under too many lists is no error of the file but a crash. -/
theorem run_leaves_directory :
    (∃ outcome, run validHost (directoryConfiguration ["a.graphql"]) = .ok outcome ∧
      outcome.result = .error (.output "y" (.system "out/new/f/" .isADirectory)) ∧
      outcome.tree.entry? ["out", "new"] = some .directory ∧
      FileTree.entry? (Output.apply "out" validHost.tree
        [{ name := "done.txt", content := "1" }]).1 ["out", "new"] = none) ∧
    ∃ defect, run crashingHost (directoryConfiguration ["a.graphql"]) = .error defect := by
  constructor
  · have ran : ((run validHost (directoryConfiguration ["a.graphql"])).map fun outcome =>
          (outcome.result, outcome.tree.entry? ["out", "new"])) =
        .ok (.error (.output "y" (.system "out/new/f/" .isADirectory)), some .directory) := by
      decide +kernel
    have before : FileTree.entry? (Output.apply "out" validHost.tree
        [{ name := "done.txt", content := "1" }]).1 ["out", "new"] = none := by
      decide +kernel
    obtain ⟨outcome, result, seen⟩ := map_eq_ok.1 ran
    obtain ⟨failed, made⟩ := Prod.mk.inj seen
    exact ⟨outcome, result, failed, made, before⟩
  · have crashed : (run crashingHost (directoryConfiguration ["a.graphql"])).isOk = false := by
      decide +kernel
    cases result : run crashingHost (directoryConfiguration ["a.graphql"]) with
    | error defect => exact ⟨defect, rfl⟩
    | ok outcome =>
      rw [result] at crashed
      cases crashed

end SdlCompiler.Compiler
