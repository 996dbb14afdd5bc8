import OrsonHighlight.Cli.Options
import OrsonHighlight.Journal
import OrsonHighlight.Render.Ansi
import OrsonHighlight.Render.Dump
import OrsonHighlight.Render.Html
import OrsonHighlight.Render.Json
import OrsonHighlight.Render.SpanLines

set_option autoImplicit false

namespace OrsonHighlight.Cli

def OutputFormat.render (f : OutputFormat) (t : Text) (r : Classification) : String :=
  match f with
  | spans => SpanLines.render t r
  | json => Json.render r
  | html => Html.render t r
  | ansi => Ansi.render t r

def normalizeLineEnds : List Char → List Char
  | [] => []
  | '\r' :: '\n' :: rest => '\n' :: normalizeLineEnds rest
  | c :: rest => (if c = '\r' then '\n' else c) :: normalizeLineEnds rest

inductive InputError where
  | file (e : FileError)
  | encoding (f : Utf8.Fault)
  deriving DecidableEq, Repr

namespace InputError

/-- A path that no file can have is no fault of reading, and is not told. -/
def report? (path : Path) (e : InputError) : Option String :=
  (match e with
    | file e => e.message? path
    | encoding f => some f.message).map fun reason =>
  "error: cannot read " ++ path.toString ++ ": " ++ reason

def failure : InputError → Failure
  | file e => .file e
  | encoding f => .undecodable f

end InputError

def decodeInput (bytes : List UInt8) : Except InputError Text :=
  match Utf8.decode bytes with
  | .error f => .error (.encoding f)
  | .ok cs => .ok (normalizeLineEnds cs).toArray

inductive Ending where
  | exit (code : Nat)
  | noRun (code : Nat)
  | brokenOff (f : Failure)
  deriving DecidableEq, Repr

structure Outcome where
  ending : Ending
  stdout : String
  stderr : String
  journal : Journal

/-- The rendered result and the dump that goes with it where one is wanted; none where there is no
classification. -/
def present (o : Options) (t : Text) (j : Journal) : Option (String × String) × Journal :=
  let (result, j) := Journal.classify o.mode t o.start o.stop j
  (result.map fun r => ((o.format.getD .spans).render t r,
    if o.debug then Dump.render t r else ""), j)

def logText (events : List Event) : String := String.join (events.map fun e => e.line ++ "\n")

variable {m : Type → Type} [Monad m]

def readInput (files : FileAccess m) (path : Path) : m (Except InputError Text) := do
  match ← files.read path with
  | .error e => return .error (.file e)
  | .ok bytes => return decodeInput bytes

def deliver (files : FileAccess m) (verbose : Bool) (o : Options) (t : Text) : m Outcome := do
  let (result, j) := present o t .empty
  let log := if verbose then logText j.events else ""
  match result with
  | none => return ⟨.brokenOff .emptyDelimiter, "", log, j⟩
  | some (text, dump) =>
    match o.outputFile with
    | none => return ⟨.exit 0, text, log ++ dump, j⟩
    | some path =>
      match ← files.write path (Utf8.encode text) with
      | .error e => return ⟨.brokenOff (.file e), "", log ++ dump, j⟩
      | .ok () => return ⟨.exit 0, "", log ++ dump, j⟩

def perform (files : FileAccess m) (registry : Registry) (args : Arguments) : m Outcome := do
  match ← resolve files registry args with
  | .error f =>
    match f.report? with
    | some text => return ⟨.exit 2, "", text ++ "\n", .empty⟩
    | none => return ⟨.brokenOff f, "", "", .empty⟩
  | .ok o =>
    match ← readInput files o.inputFile with
    | .error e =>
      match e.report? o.inputFile with
      | some text => return ⟨.exit 1, "", text ++ "\n", .empty⟩
      | none => return ⟨.brokenOff e.failure, "", "", .empty⟩
    | .ok t => deliver files args.verbose o t

def run (files : FileAccess m) (registry : Registry) (argv : List String) : m Outcome :=
  match Arguments.parse argv with
  | .error .help => pure ⟨.noRun 0, help, "", .empty⟩
  | .error (.error e) => pure ⟨.noRun 2, "", e.report, .empty⟩
  | .ok args => perform files registry args

end OrsonHighlight.Cli
