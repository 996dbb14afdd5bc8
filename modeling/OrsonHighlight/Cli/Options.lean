import OrsonHighlight.Cli.Arguments
import OrsonHighlight.Cli.Range
import OrsonHighlight.Config
import OrsonHighlight.FileSystem
import OrsonHighlight.Toml.Document
import OrsonHighlight.Text.Utf8

set_option autoImplicit false

namespace OrsonHighlight.Cli

inductive Failure where
  | config (e : Config.Error)
  | range (e : RangeError)
  | file (e : FileError)
  | undecodable (f : Utf8.Fault)
  | integerTooLong
  | nestedTooDeep
  | emptyDelimiter
  deriving DecidableEq, Repr

/-- Faults of the user's are told; the others end the run where they are found. -/
def Failure.report? : Failure → Option String
  | config e => some e.report
  | range e => some ("error: " ++ e.message)
  | _ => none

structure Options where
  inputFile : Path
  outputFile : Option Path
  /-- None where the format was left blank, and spans are written. -/
  format : Option OutputFormat
  start : Int
  stop : Option Int
  mode : Mode
  debug : Bool
  deriving DecidableEq

def decodeToml (path : Path) (bytes : List UInt8) : Except Failure Toml.Entries :=
  match Utf8.decode bytes with
  | .error f => .error (.undecodable f)
  | .ok cs =>
    match Toml.read cs with
    | .ok entries => .ok entries
    | .error .invalid => .error (.config ⟨.invalidToml, some path⟩)
    | .error .integerTooLong => .error .integerTooLong
    | .error .nestedTooDeep => .error .nestedTooDeep

def configPath (args : Arguments) : Path :=
  match args.config.text? with
  | some c => Path.ofString c
  | none => (Path.ofString args.input).parent.child "orsonlex.toml"

/-- An empty configuration leaves the base as it is, and is not checked. -/
def configuredMode (path : Path) (config : Toml.Entries) (base : Mode) : Except Failure Mode :=
  if config.isEmpty then .ok base
  else (Config.mode config base).mapError fun f => .config ⟨f, some path⟩

def configuredFormat (path : Path) (config : Toml.Entries) : Except Failure OutputFormat :=
  match Config.outputFormat config with
  | none => .ok .spans
  | some name =>
    match OutputFormat.ofName? name with
    | none => .error (.config ⟨.unknownFormat name, some path⟩)
    | some f => .ok f

/-- The configuration is checked even where the command line names another format. -/
def chosenFormat (path : Path) (config : Toml.Entries) (args : Arguments) :
    Except Failure (Option OutputFormat) :=
  (configuredFormat path config).map fun f =>
    match args.format with
    | .unset => some f
    | .blank => none
    | .text name => OutputFormat.ofName? name

def chosenRange (args : Arguments) : Except Failure (Int × Option Int) :=
  match args.range.text? with
  | none => .ok (0, none)
  | some r =>
    match parseRange r with
    | .error e => .error (.range e)
    | .ok (start, stop) => .ok (start, stop.map fun n => (n : Int))

def Options.of (registry : Registry) (args : Arguments) (config : Toml.Entries) :
    Except Failure Options := do
  let path := configPath args
  let mode ← configuredMode path config (registry.modeFor (Path.ofString args.input))
  let format ← chosenFormat path config args
  let (start, stop) ← chosenRange args
  return {
    inputFile := Path.ofString args.input
    outputFile := args.output.text?.map Path.ofString
    format
    start
    stop
    mode
    debug := args.debug }

variable {m : Type → Type} [Monad m]

def readToml (files : FileAccess m) (path : Path) : m (Except Failure Toml.Entries) := do
  match ← files.read path with
  | .error e => return .error (.file e)
  | .ok bytes => return decodeToml path bytes

def loadConfig (files : FileAccess m) (path : Path) : m (Except Failure Toml.Entries) := do
  match ← files.isFile path with
  | .error e => return .error (.file e)
  | .ok true => readToml files path
  | .ok false => return .ok []

def resolve (files : FileAccess m) (registry : Registry) (args : Arguments) :
    m (Except Failure Options) := do
  match ← loadConfig files (configPath args) with
  | .error f => return .error f
  | .ok config => return Options.of registry args config

def loadDialect (files : FileAccess m) (path : Path) (base : Mode) : m (Except Failure Mode) := do
  match ← readToml files path with
  | .error f => return .error f
  | .ok config => return (Config.mode config base).mapError fun f => .config ⟨f, some path⟩

end OrsonHighlight.Cli
