import OrsonHighlight.Proofs.RunEndings
import OrsonHighlight.Proofs.SwitchEdits

/-!
What a run leaves behind. It changes nothing but the one file that it is told to write, and what it
would print is what it writes there, all of it unless the writing breaks off. What it tells beside
that changes neither.
-/

set_option autoImplicit false

namespace OrsonHighlight.Cli

variable {fs : FileSystem} {registry : Registry} {args args' : Arguments} {o : Options} {t : Text}

theorem StopsWith.effects {ending : Ending} {x : Outcome × FileSystem} (h : StopsWith ending fs x) :
    Effects.of x = ⟨ending, "", fs⟩ := by
  rw [Effects.of, h.ending, h.stdout, h.files]

theorem outputFile_of_options {config : Toml.Entries}
    (h : Options.of registry args config = .ok o) :
    o.outputFile = args.output.text?.map Path.ofString := by
  obtain ⟨mode, -, h⟩ := bind_eq_ok_iff.1 h
  obtain ⟨format, -, h⟩ := bind_eq_ok_iff.1 h
  obtain ⟨range, -, h⟩ := bind_eq_ok_iff.1 h
  obtain rfl := Except.ok.inj h
  rfl

theorem Prepared.effects (h : Prepared fs registry args o t) :
    Effects.of ((perform FileSystem.access registry args).run fs) =
      delivered fs (args.output.text?.map Path.ofString) (rendered o t) := by
  rw [effects_of_prepared h]
  obtain ⟨-, ho, -, -⟩ := h
  rw [outputFile_of_options ho]

theorem stopsWith_of_unprepared (h : ¬ ∃ o t, Prepared fs registry args o t) {x : Trouble}
    (hx : Meets fs registry args x) :
    StopsWith x.ending fs ((perform FileSystem.access registry args).run fs) := by
  cases leaves_of_meets hx with
  | untouched hstop => exact hstop
  | cutShort hprep => exact absurd ⟨_, _, hprep⟩ h

def Options.toward (args : Arguments) (o : Options) : Options :=
  { o with outputFile := args.output.text?.map Path.ofString, debug := args.debug }

@[simp] theorem rendered_toward (args : Arguments) (o : Options) (t : Text) :
    rendered (o.toward args) t = rendered o t := by
  rw [rendered_eq, rendered_eq]
  rfl

structure SameSource (args args' : Arguments) : Prop where
  input : args'.input = args.input
  format : args'.format = args.format
  range : args'.range = args.range
  config : args'.config = args.config

namespace SameSource

theorem symm (h : SameSource args args') : SameSource args' args :=
  ⟨h.input.symm, h.format.symm, h.range.symm, h.config.symm⟩

theorem configPath_eq (h : SameSource args args') : configPath args' = configPath args := by
  rw [configPath, configPath, h.config, h.input]

theorem options (h : SameSource args args') (registry : Registry) (config : Toml.Entries) :
    Options.of registry args' config =
      (Options.of registry args config).map (Options.toward args') := by
  have hformat : chosenFormat (configPath args) config args' =
      chosenFormat (configPath args) config args := by
    rw [chosenFormat, chosenFormat, h.format]
  have hrange : chosenRange args' = chosenRange args := by rw [chosenRange, chosenRange, h.range]
  unfold Options.of
  dsimp only
  rw [h.configPath_eq, h.input, hformat, hrange]
  cases configuredMode (configPath args) config (registry.modeFor (Path.ofString args.input)) with
  | error f => rfl
  | ok mode =>
    cases chosenFormat (configPath args) config args with
    | error f => rfl
    | ok format =>
      cases chosenRange args with
      | error f => rfl
      | ok range => rfl

theorem options_of_ok (h : SameSource args args') {config : Toml.Entries}
    (ho : Options.of registry args config = .ok o) :
    Options.of registry args' config = .ok (o.toward args') := by
  rw [h.options, ho]
  rfl

theorem prepared (h : SameSource args args') (hp : Prepared fs registry args o t) :
    Prepared fs registry args' (o.toward args') t := by
  obtain ⟨hconfig, ho, hread, hdecode⟩ := hp
  exact .intro (h.configPath_eq ▸ hconfig) (h.options_of_ok ho) hread hdecode

theorem meets (h : SameSource args args') (hout : args'.output.text? = args.output.text?)
    {x : Trouble} (hx : Meets fs registry args x) : Meets fs registry args' x := by
  have hpath := h.configPath_eq
  cases hx with
  | configFile he => exact .configFile (hpath ▸ he)
  | configEncoding hfile hread hdecode =>
    exact .configEncoding (hpath ▸ hfile) (hpath ▸ hread) hdecode
  | configSyntax hfile hread hdecode htoml =>
    exact .configSyntax (hpath ▸ hfile) (hpath ▸ hread) hdecode htoml
  | options hconfig hf => exact .options (hpath ▸ hconfig) (by rw [h.options, hf]; rfl)
  | inputFile hconfig ho he => exact .inputFile (hpath ▸ hconfig) (h.options_of_ok ho) he
  | inputEncoding hconfig ho hread hdecode =>
    exact .inputEncoding (hpath ▸ hconfig) (h.options_of_ok ho) hread hdecode
  | output hprep ho htext hwrite =>
    refine .output (h.prepared hprep) ?_ (by rw [rendered_toward, htext]) hwrite
    obtain ⟨-, hof, -, -⟩ := hprep
    rw [Options.toward, hout, ← outputFile_of_options hof, ho]

theorem effects (h : SameSource args args') (hout : args'.output.text? = args.output.text?)
    (fs : FileSystem) (registry : Registry) :
    Effects.of ((perform FileSystem.access registry args').run fs) =
      Effects.of ((perform FileSystem.access registry args).run fs) := by
  by_cases hprep : ∃ o t, Prepared fs registry args o t
  · obtain ⟨o, t, hprep⟩ := hprep
    rw [hprep.effects, (h.prepared hprep).effects, hout, rendered_toward]
  · obtain ⟨x, hx⟩ := (exists_meets_or_prepared fs registry args).resolve_right hprep
    have hprep' : ¬ ∃ o t, Prepared fs registry args' o t :=
      fun ⟨o, t, h'⟩ => hprep ⟨_, _, h.symm.prepared h'⟩
    rw [(stopsWith_of_unprepared hprep hx).effects,
      (stopsWith_of_unprepared hprep' (h.meets hout hx)).effects]

end SameSource

theorem Trouble.ending_ne_exit_zero (x : Trouble) : x.ending ≠ .exit 0 := by
  have hcode : x.code ≠ 0 := by cases x <;> simp [code]
  unfold ending
  cases x.escaping? with
  | none => simpa using hcode
  | some f => simp

/-- A run whose words are read prints its result, or hands it to its file, wholly or in part, or
ends with nothing written. -/
inductive Performed (fs : FileSystem) (registry : Registry) (args : Arguments) :
    Effects → Prop where
  | printed {o : Options} {t : Text} {text : String} : Prepared fs registry args o t →
      rendered o t = some text → args.output.text? = none →
      Performed fs registry args ⟨.exit 0, text, fs⟩
  | written {o : Options} {t : Text} {text name : String} {after : FileSystem} :
      Prepared fs registry args o t → rendered o t = some text → args.output.text? = some name →
      (fs.Rewritten (Path.ofString name) (Utf8.encode text) after ∨
        fs.Passed (Path.ofString name) (Utf8.encode text) after) →
      Performed fs registry args ⟨.exit 0, "", after⟩
  | cutShort {o : Options} {t : Text} {text name : String} {after : FileSystem} :
      Prepared fs registry args o t → rendered o t = some text → args.output.text? = some name →
      fs.CutShort (Path.ofString name) (Utf8.encode text) after →
      Performed fs registry args ⟨.brokenOff (.file .tooLarge), "", after⟩
  | stopped {ending : Ending} : ending ≠ .exit 0 → Performed fs registry args ⟨ending, "", fs⟩

theorem performed_of_prepared (h : Prepared fs registry args o t) :
    Performed fs registry args
      (delivered fs (args.output.text?.map Path.ofString) (rendered o t)) := by
  cases htext : rendered o t with
  | none => exact .stopped (by simp)
  | some text =>
    cases hname : args.output.text? with
    | none => exact .printed h htext hname
    | some name =>
      rw [Option.map_some, delivered]
      have hwrites := fs.writes (Path.ofString name) (Utf8.encode text)
      generalize fs.write (Path.ofString name) (Utf8.encode text) = written at hwrites ⊢
      cases hwrites with
      | refused => exact .stopped (by simp)
      | rewritten hre => exact .written h htext hname (.inl hre)
      | cutShort hcut => exact .cutShort h htext hname hcut
      | passed hpassed => exact .written h htext hname (.inr hpassed)

theorem performed (fs : FileSystem) (registry : Registry) (args : Arguments) :
    Performed fs registry args
      (Effects.of ((perform FileSystem.access registry args).run fs)) := by
  by_cases hprep : ∃ o t, Prepared fs registry args o t
  · obtain ⟨o, t, hprep⟩ := hprep
    rw [hprep.effects]
    exact performed_of_prepared hprep
  · obtain ⟨x, hx⟩ := (exists_meets_or_prepared fs registry args).resolve_right hprep
    rw [(stopsWith_of_unprepared hprep hx).effects]
    exact .stopped x.ending_ne_exit_zero

theorem effects_without_telling {argv : List String} (hargs : Arguments.parse argv = .ok args) :
    Effects.of (runOn fs registry (without (fun s => s = .debug ∨ s = .verbose) argv)) =
      Effects.of (runOn fs registry argv) := by
  have hsame : SameSource args (args.without fun s => s = .debug ∨ s = .verbose) :=
    ⟨rfl, rfl, rfl, rfl⟩
  rw [runOn_of_parse (Arguments.parse_without _ hargs), runOn_of_parse hargs]
  exact hsame.effects rfl fs registry

theorem effects_of_stop {argv : List String} {stop : Stop}
    (h : Arguments.parse argv = .error stop) :
    Effects.of (runOn fs registry argv) =
      if stop = .help then ⟨.noRun 0, help, fs⟩ else ⟨.noRun 2, "", fs⟩ := by
  rw [runOn, run, h]
  cases stop with
  | help => rfl
  | error e => rfl

theorem effects_cons_flag {w : String} {debug verbose : Bool} {argv : List String}
    (h : Arguments.parse (w :: argv) =
      (Arguments.parse argv).map (Arguments.telling debug verbose)) :
    Effects.of (runOn fs registry (w :: argv)) = Effects.of (runOn fs registry argv) := by
  cases hargs : Arguments.parse argv with
  | error stop =>
    rw [hargs] at h
    rw [effects_of_stop h, effects_of_stop hargs]
  | ok args =>
    rw [hargs] at h
    have hsame : SameSource args (args.telling debug verbose) := ⟨rfl, rfl, rfl, rfl⟩
    rw [runOn_of_parse h, runOn_of_parse hargs]
    exact hsame.effects rfl fs registry

theorem effects_cons_told (fs : FileSystem) (registry : Registry) (argv : List String) {w : String}
    (hw : w ∈ ["--debug", "-v", "--verbose"]) :
    Effects.of (runOn fs registry (w :: argv)) = Effects.of (runOn fs registry argv) := by
  have hparse : ∃ debug verbose,
      Arguments.parse (w :: argv) =
        (Arguments.parse argv).map (Arguments.telling debug verbose) := by
    simp only [List.mem_cons, List.not_mem_nil, or_false] at hw
    rcases hw with rfl | rfl | rfl
    · exact ⟨true, false, Arguments.parse_cons_flag (s := .debug) rfl rfl rfl argv⟩
    · exact ⟨false, true, Arguments.parse_cons_flag (s := .verbose) rfl rfl rfl argv⟩
    · exact ⟨false, true, Arguments.parse_cons_flag (s := .verbose) rfl rfl rfl argv⟩
  obtain ⟨debug, verbose, hparse⟩ := hparse
  exact effects_cons_flag hparse

/-- The words of a run are read, and so is its input; the text is the result. -/
def ResultsIn (fs : FileSystem) (registry : Registry) (argv : List String) (args : Arguments)
    (text : String) : Prop :=
  ∃ o t, Arguments.parse argv = .ok args ∧ Prepared fs registry args o t ∧ rendered o t = some text

def PrintsWithoutOutput (fs : FileSystem) (registry : Registry) (argv : List String)
    (text : String) : Prop :=
  Effects.of (runOn fs registry (without (· = .output) argv)) = ⟨.exit 0, text, fs⟩

theorem ResultsIn.printsWithoutOutput {argv : List String} {text : String}
    (h : ResultsIn fs registry argv args text) : PrintsWithoutOutput fs registry argv text := by
  obtain ⟨o, t, hargs, hprep, htext⟩ := h
  have hsame : SameSource args (args.without (· = .output)) := ⟨rfl, rfl, rfl, rfl⟩
  rw [PrintsWithoutOutput, runOn_of_parse (Arguments.parse_without _ hargs),
    (hsame.prepared hprep).effects, rendered_toward, htext]
  rfl

/-- The exit code 0 stands for a result, and the result for one text: it is printed, or else it is
all that is in the file. Only a device makes nothing of it but what it shows. -/
def Returned (fs : FileSystem) (registry : Registry) (argv : List String) (e : Effects) : Prop :=
  ∃ args text, ResultsIn fs registry argv args text ∧
    (args.output.text? = none → e.stdout = text ∧ e.files = fs) ∧
    ∀ name, args.output.text? = some name → e.stdout = "" ∧
      (fs.Rewritten (Path.ofString name) (Utf8.encode text) e.files ∨
        fs.Passed (Path.ofString name) (Utf8.encode text) e.files) ∧
      PrintsWithoutOutput fs registry argv text

/-- The writing of a result broke off. Its file alone is changed, and holds a beginning of it. -/
def BrokeOffWriting (fs : FileSystem) (registry : Registry) (argv : List String) (e : Effects) :
    Prop :=
  ∃ args text name, ResultsIn fs registry argv args text ∧ args.output.text? = some name ∧
    fs.CutShort (Path.ofString name) (Utf8.encode text) e.files ∧
    PrintsWithoutOutput fs registry argv text

theorem Performed.returned {argv : List String} {e : Effects}
    (hargs : Arguments.parse argv = .ok args) (h : Performed fs registry args e)
    (hending : e.ending = .exit 0) : Returned fs registry argv e := by
  cases h with
  | printed hprep htext hnone =>
    refine ⟨args, _, ⟨_, _, hargs, hprep, htext⟩, fun _ => ⟨rfl, rfl⟩, fun name hname => ?_⟩
    cases hnone.symm.trans hname
  | written hprep htext hsome hwritten =>
    have hresult : ResultsIn fs registry argv args _ := ⟨_, _, hargs, hprep, htext⟩
    refine ⟨args, _, hresult, fun hnone => ?_, fun name hname => ?_⟩
    · cases hnone.symm.trans hsome
    · obtain rfl := Option.some.inj (hsome.symm.trans hname)
      exact ⟨rfl, hwritten, hresult.printsWithoutOutput⟩
  | cutShort => cases hending
  | stopped hne => exact absurd hending hne

theorem Performed.failed {argv : List String} {e : Effects}
    (hargs : Arguments.parse argv = .ok args) (h : Performed fs registry args e)
    (hending : e.ending ≠ .exit 0) : e.stdout = "" ∧
      (e.files = fs ∨
        e.ending = .brokenOff (.file .tooLarge) ∧ BrokeOffWriting fs registry argv e) := by
  cases h with
  | printed => exact absurd rfl hending
  | written => exact absurd rfl hending
  | cutShort hprep htext hname hcut =>
    have hresult : ResultsIn fs registry argv args _ := ⟨_, _, hargs, hprep, htext⟩
    exact ⟨rfl, .inr ⟨rfl, args, _, _, hresult, hname, hcut, hresult.printsWithoutOutput⟩⟩
  | stopped => exact ⟨rfl, .inl rfl⟩

/-- What a run leaves behind is its declared output and nothing else. What it tells beside that
changes none of it. -/
structure Contained (fs : FileSystem) (registry : Registry) (argv : List String) (e : Effects) :
    Prop where
  silent : e.ending ≠ .exit 0 → e.ending ≠ .noRun 0 → e.stdout = ""
  failed : e.ending ≠ .exit 0 → e.files = fs ∨
    e.ending = .brokenOff (.file .tooLarge) ∧ BrokeOffWriting fs registry argv e
  returned : e.ending = .exit 0 → Returned fs registry argv e
  toldBefore : ∀ w ∈ ["--debug", "-v", "--verbose"], Effects.of (runOn fs registry (w :: argv)) = e
  toldWithin : ∀ args, Arguments.parse argv = .ok args →
    Effects.of (runOn fs registry (without (fun s => s = .debug ∨ s = .verbose) argv)) = e

theorem runOn_contained (fs : FileSystem) (registry : Registry) (argv : List String) :
    Contained fs registry argv (Effects.of (runOn fs registry argv)) := by
  have htold := fun w hw => effects_cons_told fs registry argv (w := w) hw
  cases hargs : Arguments.parse argv with
  | error stop =>
    -- a run whose words are not read writes at most the help
    have heffects : Effects.of (runOn fs registry argv) =
        if stop = .help then ⟨.noRun 0, help, fs⟩ else ⟨.noRun 2, "", fs⟩ := effects_of_stop hargs
    refine ⟨?_, ?_, ?_, htold, fun args hargs' => ?_⟩
    · rw [heffects]
      split <;> simp
    · rw [heffects]
      split <;> simp
    · rw [heffects]
      split <;> simp
    · cases hargs.symm.trans hargs'
  | ok args =>
    have hdone : Performed fs registry args (Effects.of (runOn fs registry argv)) := by
      rw [runOn_of_parse hargs]
      exact performed fs registry args
    exact ⟨fun hending _ => (hdone.failed hargs hending).1,
      fun hending => (hdone.failed hargs hending).2, hdone.returned hargs, htold,
      fun _ hargs' => effects_without_telling hargs'⟩

/-- What is written to a device is not read back there. A file that cannot hold all of the result is
made, though the run breaks off. -/
theorem runOn_device_and_short_file :
    Effects.of (runOn (FileSystem.empty.add ["prog.op"] (.file [105, 102])) Registry.initial
      ["prog.op"]) =
      ⟨.exit 0, "0\t2\tCLAUSE_KEYWORD\t'if'\n",
        FileSystem.empty.add ["prog.op"] (.file [105, 102])⟩ ∧
    Effects.of (runOn (FileSystem.empty.add ["prog.op"] (.file [105, 102])) Registry.initial
      ["prog.op", "-o", "/dev/null"]) =
      ⟨.exit 0, "", FileSystem.empty.add ["prog.op"] (.file [105, 102])⟩ ∧
    (FileSystem.empty.add ["prog.op"] (.file [105, 102])).read (Path.ofString "/dev/null") ≠
      .ok (Utf8.encode "0\t2\tCLAUSE_KEYWORD\t'if'\n") ∧
    Effects.of (runOn { FileSystem.empty.add ["prog.op"] (.file [105, 102]) with limit := some 3 }
      Registry.initial ["prog.op", "-o", "out.txt"]) =
      ⟨.brokenOff (.file .tooLarge), "",
        { (FileSystem.empty.add ["prog.op"] (.file [105, 102])).add ["out.txt"] (.file [48, 9, 50])
          with limit := some 3 }⟩ := by
  decide +kernel

example : Effects.of (runOn (FileSystem.empty.add ["prog.op"] (.file [105, 102])) Registry.initial
    ["/tmp/work/prog.op", "-o", "/tmp/out.txt"]) =
    ⟨.exit 0, "", (FileSystem.empty.add ["prog.op"] (.file [105, 102])).put ["tmp", "out.txt"]
      (.file (Utf8.encode "0\t2\tCLAUSE_KEYWORD\t'if'\n"))⟩ := by
  decide +kernel

end OrsonHighlight.Cli
