import OrsonHighlight.Cli.Run

set_option autoImplicit false

namespace OrsonHighlight.Cli

def fileError : IO.Error → FileError
  | .inappropriateType _ code _ => if code = 21 ∨ code = -21 then .isDirectory else .notDirectory
  | .invalidArgument _ _ _ => .nameTooLong
  | .resourceExhausted _ _ _ => .tooLarge
  | _ => .notFound

def withFile {α : Type} (p : Path) (act : String → IO α) : IO (Except FileError α) := do
  if p.hasNull then return .error .nullCharacter
  match ← (act p.toString).toBaseIO with
  | .ok a => return .ok a
  | .error e => return .error (fileError e)

def systemFiles : FileAccess IO where
  isFile p := do
    match ← withFile p (IO.FS.readBinFile ·) with
    | .ok _ => return .ok true
    | .error .nameTooLong => return .error .nameTooLong
    | .error _ => return .ok false
  read p := return (← withFile p (IO.FS.readBinFile ·)).map fun bytes => bytes.toList
  write p bytes := withFile p (IO.FS.writeBinFile · ⟨bytes.toArray⟩)

end OrsonHighlight.Cli

def main (argv : List String) : IO UInt32 := do
  let outcome ← OrsonHighlight.Cli.run OrsonHighlight.Cli.systemFiles
    OrsonHighlight.Registry.initial argv
  (← IO.getStdout).putStr outcome.stdout
  (← IO.getStderr).putStr outcome.stderr
  match outcome.ending with
  | .exit code => return code.toUInt32
  | .noRun code => return code.toUInt32
  | .brokenOff _ =>
    (← IO.getStderr).putStr "orsonlex: the run broke off\n"
    return 1
