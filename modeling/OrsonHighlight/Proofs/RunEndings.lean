import OrsonHighlight.Cli.Run
import OrsonHighlight.Proofs.FileWrites

/-!
How a run ends on a store of files. A run that finds nothing wrong exits with 0. Of what may be
wrong, some is told and makes the exit code; the rest escapes, and the run breaks off. Either way
nothing is written but, where it is the writing that breaks off, a beginning of the output.
-/

set_option autoImplicit false

namespace OrsonHighlight

namespace FileSystem

theorem run_isFile (fs : FileSystem) (p : Path) :
    (access.isFile p).run fs = (fs.isFile p, fs) := rfl

theorem run_read (fs : FileSystem) (p : Path) : (access.read p).run fs = (fs.read p, fs) := rfl

theorem run_write (fs : FileSystem) (p : Path) (bytes : List UInt8) :
    (access.write p bytes).run fs = fs.write p bytes := rfl

end FileSystem

namespace Cli

variable {fs : FileSystem} {registry : Registry} {args : Arguments}

theorem run_bind_eq {σ α β : Type} {x : StateM σ α} {f : α → StateM σ β} {s s' : σ} {a : α}
    (h : x.run s = (a, s')) : (x >>= f).run s = (f a).run s' := by
  rw [StateT.run_bind, h]
  rfl

theorem run_loadConfig_of_error {path : Path} {e : FileError} (h : fs.isFile path = .error e) :
    (loadConfig FileSystem.access path).run fs = (.error (.file e), fs) := by
  rw [loadConfig, run_bind_eq (FileSystem.run_isFile fs path), h]
  rfl

theorem run_loadConfig_of_absent {path : Path} (h : fs.isFile path = .ok false) :
    (loadConfig FileSystem.access path).run fs = (.ok [], fs) := by
  rw [loadConfig, run_bind_eq (FileSystem.run_isFile fs path), h]
  rfl

theorem run_loadConfig_of_read {path : Path} {bytes : List UInt8} (h : fs.isFile path = .ok true)
    (hread : fs.read path = .ok bytes) :
    (loadConfig FileSystem.access path).run fs = (decodeToml path bytes, fs) := by
  rw [loadConfig, run_bind_eq (FileSystem.run_isFile fs path), h]
  dsimp only
  rw [readToml, run_bind_eq (FileSystem.run_read fs path), hread]
  rfl

theorem run_readInput_of_error {path : Path} {e : FileError} (h : fs.read path = .error e) :
    (readInput FileSystem.access path).run fs = (.error (.file e), fs) := by
  rw [readInput, run_bind_eq (FileSystem.run_read fs path), h]
  rfl

theorem run_readInput_of_read {path : Path} {bytes : List UInt8} (h : fs.read path = .ok bytes) :
    (readInput FileSystem.access path).run fs = (decodeInput bytes, fs) := by
  rw [readInput, run_bind_eq (FileSystem.run_read fs path), h]
  rfl

theorem run_resolve_of_loadConfig {r : Except Failure Toml.Entries}
    (h : (loadConfig FileSystem.access (configPath args)).run fs = (r, fs)) :
    (resolve FileSystem.access registry args).run fs = (r >>= Options.of registry args, fs) := by
  rw [resolve, run_bind_eq h]
  cases r with
  | error f => rfl
  | ok config => rfl

/-- The result of a run as text, whatever becomes of it. -/
def rendered (o : Options) (t : Text) : Option String := (present o t .empty).1.map (·.1)

theorem rendered_eq (o : Options) (t : Text) :
    rendered o t = (o.mode.classify t o.start o.stop).map ((o.format.getD .spans).render t) := by
  simp only [rendered, present, Journal.classify_fst, Option.map_map]
  rfl

structure Effects where
  ending : Ending
  stdout : String
  files : FileSystem
  deriving DecidableEq

def Effects.of (x : Outcome × FileSystem) : Effects := ⟨x.1.ending, x.1.stdout, x.2⟩

def delivered (fs : FileSystem) (output : Option Path) : Option String → Effects
  | none => ⟨.brokenOff .emptyDelimiter, "", fs⟩
  | some text =>
    match output with
    | none => ⟨.exit 0, text, fs⟩
    | some path =>
      match fs.write path (Utf8.encode text) with
      | (.error e, after) => ⟨.brokenOff (.file e), "", after⟩
      | (.ok (), after) => ⟨.exit 0, "", after⟩

theorem effects_deliver (fs : FileSystem) (verbose : Bool) (o : Options) (t : Text) :
    Effects.of ((deliver FileSystem.access verbose o t).run fs) =
      delivered fs o.outputFile (rendered o t) := by
  unfold deliver rendered
  cases hp : present o t .empty with
  | mk result j =>
    cases result with
    | none => rfl
    | some x =>
      obtain ⟨text, dump⟩ := x
      dsimp only [Option.map_some, delivered]
      cases o.outputFile with
      | none => rfl
      | some path =>
        dsimp only
        have hw := FileSystem.run_write fs path (Utf8.encode text)
        rcases hwrite : fs.write path (Utf8.encode text) with ⟨result, after⟩
        rw [hwrite] at hw
        rw [run_bind_eq hw]
        cases result with
        | error e => rfl
        | ok => rfl

/-- The settings of a file, none where there is no file. -/
inductive Configured (fs : FileSystem) (path : Path) : Toml.Entries → Prop where
  | absent : fs.isFile path = .ok false → Configured fs path []
  | present {bytes : List UInt8} {cs : List Char} {config : Toml.Entries} :
      fs.isFile path = .ok true →
      fs.read path = .ok bytes → Utf8.decode bytes = .ok cs → Toml.read cs = .ok config →
      Configured fs path config

inductive Prepared (fs : FileSystem) (registry : Registry) (args : Arguments) :
    Options → Text → Prop where
  | intro {config : Toml.Entries} {o : Options} {bytes : List UInt8} {cs : List Char} :
      Configured fs (configPath args) config → Options.of registry args config = .ok o →
      fs.read o.inputFile = .ok bytes → Utf8.decode bytes = .ok cs →
      Prepared fs registry args o (normalizeLineEnds cs).toArray

/-- What may be wrong, in the order in which a run finds it. -/
inductive Trouble where
  | configFile (e : FileError)
  | configEncoding (f : Utf8.Fault)
  | configSyntax (f : Toml.Fault)
  | options (f : Failure)
  | input (e : InputError)
  | output (e : FileError)

namespace Trouble

/-- The exit code is 2 for a configuration or a range that is wrong, and 1 for what cannot be read
or written. -/
def code : Trouble → Nat
  | configSyntax _ | options _ => 2
  | configFile _ | configEncoding _ | input _ | output _ => 1

/-- The failure that breaks the run off; none where the trouble is told. -/
def escaping? : Trouble → Option Failure
  | configFile e | output e => some (.file e)
  | configEncoding f => some (.undecodable f)
  | configSyntax .invalid => none
  | configSyntax .integerTooLong => some .integerTooLong
  | configSyntax .nestedTooDeep => some .nestedTooDeep
  | options _ => none
  | input e => if e = .file .nullCharacter then some e.failure else none

def ending (x : Trouble) : Ending :=
  match x.escaping? with
  | none => .exit x.code
  | some f => .brokenOff f

end Trouble

inductive Meets (fs : FileSystem) (registry : Registry) (args : Arguments) : Trouble → Prop where
  | configFile {e : FileError} :
      fs.isFile (configPath args) = .error e → Meets fs registry args (.configFile e)
  | configEncoding {bytes : List UInt8} {f : Utf8.Fault} : fs.isFile (configPath args) = .ok true →
      fs.read (configPath args) = .ok bytes → Utf8.decode bytes = .error f →
      Meets fs registry args (.configEncoding f)
  | configSyntax {bytes : List UInt8} {cs : List Char} {f : Toml.Fault} :
      fs.isFile (configPath args) = .ok true →
      fs.read (configPath args) = .ok bytes → Utf8.decode bytes = .ok cs → Toml.read cs = .error f →
      Meets fs registry args (.configSyntax f)
  | options {config : Toml.Entries} {f : Failure} : Configured fs (configPath args) config →
      Options.of registry args config = .error f → Meets fs registry args (.options f)
  | inputFile {config : Toml.Entries} {o : Options} {e : FileError} :
      Configured fs (configPath args) config →
      Options.of registry args config = .ok o → fs.read o.inputFile = .error e →
      Meets fs registry args (.input (.file e))
  | inputEncoding {config : Toml.Entries} {o : Options} {bytes : List UInt8} {f : Utf8.Fault} :
      Configured fs (configPath args) config → Options.of registry args config = .ok o →
      fs.read o.inputFile = .ok bytes → Utf8.decode bytes = .error f →
      Meets fs registry args (.input (.encoding f))
  | output {o : Options} {t : Text} {path : Path} {text : String} {e : FileError}
      {after : FileSystem} : Prepared fs registry args o t → o.outputFile = some path →
      rendered o t = some text → fs.write path (Utf8.encode text) = (.error e, after) →
      Meets fs registry args (.output e)

theorem exists_report_of_configuredMode {path : Path} {config : Toml.Entries}
    {base : Mode} {f : Failure}
    (h : configuredMode path config base = .error f) : ∃ text, f.report? = some text := by
  unfold configuredMode at h
  split at h
  · cases h
  · cases hm : Config.mode config base with
    | error fault =>
      rw [hm] at h
      cases h
      exact ⟨_, rfl⟩
    | ok m =>
      rw [hm] at h
      cases h

theorem exists_report_of_chosenFormat {path : Path} {config : Toml.Entries} {f : Failure}
    (h : chosenFormat path config args = .error f) : ∃ text, f.report? = some text := by
  unfold chosenFormat at h
  cases hc : configuredFormat path config with
  | ok format =>
    rw [hc] at h
    cases h
  | error f' =>
    rw [hc] at h
    obtain rfl := Except.error.inj h
    unfold configuredFormat at hc
    split at hc
    · cases hc
    · split at hc
      · cases hc
        exact ⟨_, rfl⟩
      · cases hc

theorem exists_report_of_chosenRange {f : Failure} (h : chosenRange args = .error f) :
    ∃ text, f.report? = some text := by
  unfold chosenRange at h
  split at h
  · cases h
  · split at h
    · cases h
      exact ⟨_, rfl⟩
    · cases h

/-- Options fail for faults that are told. -/
theorem exists_report_of_options {config : Toml.Entries} {f : Failure}
    (h : Options.of registry args config = .error f) : ∃ text, f.report? = some text := by
  rcases bind_eq_error_iff.1 h with h | ⟨mode, -, h⟩
  · exact exists_report_of_configuredMode h
  rcases bind_eq_error_iff.1 h with h | ⟨format, -, h⟩
  · exact exists_report_of_chosenFormat h
  rcases bind_eq_error_iff.1 h with h | ⟨range, -, h⟩
  · exact exists_report_of_chosenRange h
  · cases h

theorem run_resolve_of_configured (registry : Registry) {config : Toml.Entries}
    (h : Configured fs (configPath args) config) :
    (resolve FileSystem.access registry args).run fs = (Options.of registry args config, fs) := by
  cases h with
  | absent hno => exact run_resolve_of_loadConfig (run_loadConfig_of_absent hno)
  | present hfile hread hdecode htoml =>
    have hload := run_loadConfig_of_read hfile hread
    simp only [decodeToml, hdecode, htoml] at hload
    exact run_resolve_of_loadConfig hload

/-- A run that is over with nothing written, neither to the files nor to the standard output. -/
structure StopsWith (ending : Ending) (fs : FileSystem) (after : Outcome × FileSystem) : Prop where
  ending : after.1.ending = ending
  stdout : after.1.stdout = ""
  files : after.2 = fs

theorem stopsWith_of_failure {f : Failure}
    (h : (resolve FileSystem.access registry args).run fs = (.error f, fs)) :
    StopsWith (if f.report?.isSome then .exit 2 else .brokenOff f) fs
      ((perform FileSystem.access registry args).run fs) := by
  rw [perform, run_bind_eq h]
  dsimp only
  cases f.report? with
  | none => exact ⟨rfl, rfl, rfl⟩
  | some text => exact ⟨rfl, rfl, rfl⟩

theorem report?_eq_none_iff {path : Path} {e : InputError} :
    e.report? path = none ↔ e = .file .nullCharacter := by
  cases e with
  | file e => cases e <;> simp [InputError.report?, FileError.message?, FileError.cause?]
  | encoding f => simp [InputError.report?]

theorem stopsWith_of_inputError {o : Options} {e : InputError}
    (h : (resolve FileSystem.access registry args).run fs = (.ok o, fs))
    (hin : (readInput FileSystem.access o.inputFile).run fs = (.error e, fs)) :
    StopsWith (Trouble.input e).ending fs ((perform FileSystem.access registry args).run fs) := by
  rw [perform, run_bind_eq h]
  dsimp only
  rw [run_bind_eq hin]
  dsimp only
  by_cases hnull : e = .file .nullCharacter
  · rw [report?_eq_none_iff.2 hnull, Trouble.ending, Trouble.escaping?, if_pos hnull]
    exact ⟨rfl, rfl, rfl⟩
  · obtain ⟨text, htext⟩ := Option.ne_none_iff_exists'.1 (mt report?_eq_none_iff.1 hnull)
    rw [htext, Trouble.ending, Trouble.escaping?, if_neg hnull]
    exact ⟨rfl, rfl, rfl⟩

theorem run_perform_of_prepared {o : Options} {t : Text} (h : Prepared fs registry args o t) :
    (perform FileSystem.access registry args).run fs =
      (deliver FileSystem.access args.verbose o t).run fs := by
  obtain ⟨hconfig, ho, hread, hdecode⟩ := h
  have hres := run_resolve_of_configured registry hconfig
  have hin := run_readInput_of_read hread
  simp only [decodeInput, hdecode] at hin
  rw [ho] at hres
  rw [perform, run_bind_eq hres]
  dsimp only
  rw [run_bind_eq hin]

theorem exists_rendered {o : Options} (ho : o.mode.Scannable) (t : Text) :
    ∃ text, rendered o t = some text := by
  obtain ⟨c, hr⟩ := ho.exists_reads
  rw [rendered_eq, hr.classify_eq]
  exact ⟨_, rfl⟩

theorem effects_of_prepared {o : Options} {t : Text} (h : Prepared fs registry args o t) :
    Effects.of ((perform FileSystem.access registry args).run fs) =
      delivered fs o.outputFile (rendered o t) := by
  rw [run_perform_of_prepared h, effects_deliver]

def runOn (fs : FileSystem) (registry : Registry) (argv : List String) : Outcome × FileSystem :=
  (run FileSystem.access registry argv).run fs

theorem runOn_of_parse {argv : List String} (h : Arguments.parse argv = .ok args) :
    runOn fs registry argv = (perform FileSystem.access registry args).run fs := by
  rw [runOn, run, h]

def ReadsScannable (fs : FileSystem) (registry : Registry) (args : Arguments) : Prop :=
  ∀ config o, Configured fs (configPath args) config → Options.of registry args config = .ok o →
    o.mode.Scannable

/-- What a run leaves behind when it meets a trouble: nothing, or a beginning of its output. -/
inductive Leaves (fs : FileSystem) (registry : Registry) (args : Arguments)
    (after : Outcome × FileSystem) : Trouble → Prop where
  | untouched {x : Trouble} : StopsWith x.ending fs after → Leaves fs registry args after x
  | cutShort {o : Options} {t : Text} {path : Path} {text : String} :
      Prepared fs registry args o t → o.outputFile = some path → rendered o t = some text →
      after.1.ending = (Trouble.output .tooLarge).ending → after.1.stdout = "" →
      fs.CutShort path (Utf8.encode text) after.2 →
      Leaves fs registry args after (.output .tooLarge)

theorem Leaves.ending {after : Outcome × FileSystem} {x : Trouble}
    (h : Leaves fs registry args after x) : after.1.ending = x.ending := by
  cases h with
  | untouched hstop => exact hstop.ending
  | cutShort _ _ _ hending => exact hending

theorem leaves_of_output {o : Options} {t : Text} {path : Path} {text : String} {e : FileError}
    {files : FileSystem} (hprep : Prepared fs registry args o t) (hpath : o.outputFile = some path)
    (htext : rendered o t = some text)
    (hwrite : fs.write path (Utf8.encode text) = (.error e, files)) :
    Leaves fs registry args ((perform FileSystem.access registry args).run fs) (.output e) := by
  have heffects := effects_of_prepared hprep
  simp only [hpath, htext, delivered, hwrite] at heffects
  obtain ⟨hending, hstdout, hfiles⟩ := Effects.mk.inj heffects
  have hwrites := fs.writes path (Utf8.encode text)
  rw [hwrite] at hwrites
  cases hwrites with
  | refused => exact .untouched ⟨hending, hstdout, hfiles⟩
  | cutShort hcut => exact .cutShort hprep hpath htext hending hstdout (hfiles ▸ hcut)

theorem leaves_of_meets {x : Trouble} (h : Meets fs registry args x) :
    Leaves fs registry args ((perform FileSystem.access registry args).run fs) x := by
  cases h with
  | configFile he =>
    exact .untouched (stopsWith_of_failure (run_resolve_of_loadConfig (run_loadConfig_of_error he)))
  | configEncoding hfile hread hdecode =>
    have hload := run_loadConfig_of_read hfile hread
    simp only [decodeToml, hdecode] at hload
    exact .untouched (stopsWith_of_failure (run_resolve_of_loadConfig hload))
  | @configSyntax _ _ f hfile hread hdecode htoml =>
    have hload := run_loadConfig_of_read hfile hread
    simp only [decodeToml, hdecode, htoml] at hload
    cases f with
    | invalid => exact .untouched (stopsWith_of_failure (run_resolve_of_loadConfig hload))
    | integerTooLong => exact .untouched (stopsWith_of_failure (run_resolve_of_loadConfig hload))
    | nestedTooDeep => exact .untouched (stopsWith_of_failure (run_resolve_of_loadConfig hload))
  | options hconfig hf =>
    have hres := run_resolve_of_configured registry hconfig
    rw [hf] at hres
    obtain ⟨text, htext⟩ := exists_report_of_options hf
    have hstop := stopsWith_of_failure hres
    rw [htext] at hstop
    exact .untouched hstop
  | inputFile hconfig ho he =>
    have hres := run_resolve_of_configured registry hconfig
    rw [ho] at hres
    exact .untouched (stopsWith_of_inputError hres (run_readInput_of_error he))
  | inputEncoding hconfig ho hread hdecode =>
    have hres := run_resolve_of_configured registry hconfig
    rw [ho] at hres
    have hin := run_readInput_of_read hread
    simp only [decodeInput, hdecode] at hin
    exact .untouched (stopsWith_of_inputError hres hin)
  | output hprep hpath htext hwrite => exact leaves_of_output hprep hpath htext hwrite

theorem exists_meets_or_configured (fs : FileSystem) (registry : Registry) (args : Arguments) :
    (∃ x, Meets fs registry args x) ∨ ∃ config, Configured fs (configPath args) config := by
  cases hfile : fs.isFile (configPath args) with
  | error e => exact .inl ⟨_, .configFile hfile⟩
  | ok there =>
    cases there with
    | false => exact .inr ⟨[], .absent hfile⟩
    | true =>
      obtain ⟨bytes, hread⟩ := FileSystem.exists_read_of_isFile hfile
      cases hdecode : Utf8.decode bytes with
      | error f => exact .inl ⟨_, .configEncoding hfile hread hdecode⟩
      | ok cs =>
        cases htoml : Toml.read cs with
        | error f => exact .inl ⟨_, .configSyntax hfile hread hdecode htoml⟩
        | ok config => exact .inr ⟨config, .present hfile hread hdecode htoml⟩

theorem exists_meets_or_prepared (fs : FileSystem) (registry : Registry) (args : Arguments) :
    (∃ x, Meets fs registry args x) ∨ ∃ o t, Prepared fs registry args o t := by
  rcases exists_meets_or_configured fs registry args with hx | ⟨config, hconfig⟩
  · exact .inl hx
  cases ho : Options.of registry args config with
  | error f => exact .inl ⟨_, .options hconfig ho⟩
  | ok o =>
    cases hread : fs.read o.inputFile with
    | error e => exact .inl ⟨_, .inputFile hconfig ho hread⟩
    | ok bytes =>
      cases hdecode : Utf8.decode bytes with
      | error f => exact .inl ⟨_, .inputEncoding hconfig ho hread hdecode⟩
      | ok cs => exact .inr ⟨o, _, .intro hconfig ho hread hdecode⟩

theorem ending_of_no_trouble (hscan : ReadsScannable fs registry args)
    (h : ∀ x, ¬ Meets fs registry args x) :
    ((perform FileSystem.access registry args).run fs).1.ending = .exit 0 := by
  rcases exists_meets_or_prepared fs registry args with ⟨x, hx⟩ | ⟨o, t, hprep⟩
  · exact absurd hx (h x)
  have hmode : o.mode.Scannable := by
    obtain ⟨hconfig, ho, -, -⟩ := hprep
    exact hscan _ _ hconfig ho
  obtain ⟨text, htext⟩ := exists_rendered hmode t
  have hending := congrArg Effects.ending (effects_of_prepared hprep)
  refine hending.trans ?_
  rw [htext]
  cases hpath : o.outputFile with
  | none => rfl
  | some path =>
    rcases hwrite : fs.write path (Utf8.encode text) with ⟨result, after⟩
    cases result with
    | error e => exact absurd (.output hprep hpath htext hwrite) (h _)
    | ok => simp only [delivered, hwrite]

/-- The promised endings: 0 where nothing is wrong, and else the code of what is. -/
structure ExitsAsPromised (fs : FileSystem) (registry : Registry) (args : Arguments)
    (ending : Ending) : Prop where
  exits : ∃ code, code ≤ 2 ∧ ending = .exit code
  clean : (∀ x, ¬ Meets fs registry args x) → ending = .exit 0
  wrong : ∀ x, Meets fs registry args x → ending = .exit x.code

theorem Trouble.code_le (x : Trouble) : x.code ≤ 2 := by
  cases x <;> simp [code]

theorem Trouble.ending_eq_exit_iff {x : Trouble} :
    x.ending = .exit x.code ↔ x.escaping? = none := by
  unfold Trouble.ending
  cases x.escaping? with
  | none => simp
  | some f => simp

theorem exitsAsPromised_of_told (hscan : ReadsScannable fs registry args)
    (h : ∀ x, Meets fs registry args x → x.escaping? = none) :
    ExitsAsPromised fs registry args
      ((perform FileSystem.access registry args).run fs).1.ending := by
  have hwrong : ∀ x, Meets fs registry args x →
      ((perform FileSystem.access registry args).run fs).1.ending = .exit x.code :=
    fun x hx => (leaves_of_meets hx).ending.trans (Trouble.ending_eq_exit_iff.2 (h x hx))
  refine ⟨?_, ending_of_no_trouble hscan, hwrong⟩
  by_cases hx : ∃ x, Meets fs registry args x
  · obtain ⟨x, hx⟩ := hx
    exact ⟨x.code, x.code_le, hwrong x hx⟩
  · exact ⟨0, by decide, ending_of_no_trouble hscan (not_exists.1 hx)⟩

/-- A run whose words are read ends with the promised exit code exactly if none of what it meets
escapes. What escapes breaks the run off, and a run that meets anything wrong writes nothing, or a
beginning of its output where it is the writing that breaks off. -/
theorem exitsAsPromised_iff {argv : List String} (hargs : Arguments.parse argv = .ok args)
    (hscan : ReadsScannable fs registry args) :
    (ExitsAsPromised fs registry args (runOn fs registry argv).1.ending ↔
      ∀ x, Meets fs registry args x → x.escaping? = none) ∧
    ∀ x, Meets fs registry args x → Leaves fs registry args (runOn fs registry argv) x := by
  rw [runOn_of_parse hargs]
  refine ⟨⟨fun h x hx => ?_, exitsAsPromised_of_told hscan⟩, fun x hx => leaves_of_meets hx⟩
  exact Trouble.ending_eq_exit_iff.1 ((leaves_of_meets hx).ending.symm.trans (h.wrong x hx))

theorem modeFor_initial (p : Path) : Registry.initial.modeFor p = Mode.orson := by
  have hall : ∀ entry ∈ Registry.initial, entry.2 = Mode.orson := by
    intro entry he
    rcases List.mem_cons.1 he with rfl | he
    · rfl
    · obtain rfl := List.mem_singleton.1 he
      rfl
  unfold Registry.modeFor Registry.lookup
  cases h : Registry.initial.find? (·.1 == p.suffixKey) with
  | none => rfl
  | some entry => exact hall entry (List.mem_of_find?_eq_some h)

/-- Only a configured line end as the comment character keeps the built-in mode from being
scannable. -/
theorem readsScannable_initial
    (h : ∀ config m, Configured fs (configPath args) config → config ≠ [] →
      Config.mode config Mode.orson = .ok m → ∀ ch ∈ m.commentStart.toList, isLineEnd ch = false) :
    ReadsScannable fs Registry.initial args := by
  intro config o hconfig ho
  obtain ⟨m, hm, ho⟩ := bind_eq_ok_iff.1 ho
  obtain ⟨format, -, ho⟩ := bind_eq_ok_iff.1 ho
  obtain ⟨range, -, ho⟩ := bind_eq_ok_iff.1 ho
  obtain rfl := Except.ok.inj ho
  dsimp only
  rw [modeFor_initial] at hm
  unfold configuredMode at hm
  split at hm
  · obtain rfl := Except.ok.inj hm
    exact Mode.scannable_orson
  · rename_i hne
    cases hmode : Config.mode config Mode.orson with
    | error f =>
      rw [hmode] at hm
      cases hm
    | ok m' =>
      rw [hmode] at hm
      obtain rfl := Except.ok.inj hm
      obtain ⟨entries, -, hs⟩ := Config.accepted_of_mode hmode
      obtain ⟨ch, hch⟩ : ∃ ch, m'.commentStart.toList = [ch] := hs.exists_char
      exact (Mode.scannable_iff_isLineEnd hs.stringDelimiter_ne hch).2
        (h config m' hconfig (mt List.isEmpty_iff.2 hne) hmode ch (by simp [hch]))

theorem exitsAsPromised_iff_undecodable_input :
    Arguments.parse ["a.op"] = .ok ⟨"a.op", .unset, .unset, .unset, .unset, false, false⟩ ∧
      StopsWith (.exit 1) (FileSystem.empty.add ["a.op"] (.file [0xFF]))
        (runOn (FileSystem.empty.add ["a.op"] (.file [0xFF])) Registry.initial ["a.op"]) := by
  have hparse : Arguments.parse ["a.op"] =
    .ok ⟨"a.op", .unset, .unset, .unset, .unset, false, false⟩ := rfl
  have hno : (FileSystem.empty.add ["a.op"] (.file [0xFF])).isFile (Path.ofString "orsonlex.toml") =
    .ok false := rfl
  have hscan : ReadsScannable (FileSystem.empty.add ["a.op"] (.file [0xFF])) Registry.initial
      ⟨"a.op", .unset, .unset, .unset, .unset, false, false⟩ := by
    refine readsScannable_initial fun config m hconfig hne => ?_
    cases hconfig with
    | absent => exact absurd rfl hne
    | present hfile => exact absurd (hno.symm.trans hfile) (by simp)
  have hleaves := (exitsAsPromised_iff hparse hscan).2 _ (.inputEncoding (.absent hno) rfl rfl rfl)
  cases hleaves with
  | untouched hstop => exact ⟨hparse, hstop⟩

/-- Where the output cannot be written, the run breaks off without an exit code. -/
theorem not_exitsAsPromised_missing_directory :
    Arguments.parse ["prog.op", "-o", "no/dir.txt"] =
      .ok ⟨"prog.op", .text "no/dir.txt", .unset, .unset, .unset, false, false⟩ ∧
    (runOn (FileSystem.empty.add ["prog.op"] (.file [105, 102])) Registry.initial
      ["prog.op", "-o", "no/dir.txt"]).1.ending = .brokenOff (.file .notFound) ∧
    ¬ ∃ code, (runOn (FileSystem.empty.add ["prog.op"] (.file [105, 102])) Registry.initial
      ["prog.op", "-o", "no/dir.txt"]).1.ending = .exit code := by
  have hbroken : (runOn (FileSystem.empty.add ["prog.op"] (.file [105, 102])) Registry.initial
      ["prog.op", "-o", "no/dir.txt"]).1.ending = .brokenOff (.file .notFound) := rfl
  refine ⟨rfl, hbroken, ?_⟩
  rintro ⟨code, hcode⟩
  exact absurd (hbroken.symm.trans hcode) (by simp)

end Cli

end OrsonHighlight
