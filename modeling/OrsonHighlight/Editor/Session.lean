import OrsonHighlight.Editor.SemanticTokens
import OrsonHighlight.Journal

set_option autoImplicit false

namespace OrsonHighlight.Editor

/-- A warning on the characters from one column up to another, all counted from zero. -/
structure Diagnostic where
  startLine : Nat
  startColumn : Nat
  endLine : Nat
  endColumn : Nat
  message : String
  severity : Nat
  source : String
  deriving DecidableEq, Repr

structure Notification where
  uri : String
  diagnostics : List Diagnostic
  deriving DecidableEq, Repr

def warning : Nat := 2

def openStringWarning (m : Mode) (ix : LineIndex) (r : Region) : Diagnostic :=
  let p := ix.position r.opening
  { startLine := p.line - 1
    startColumn := p.column - 1
    endLine := p.line - 1
    endColumn := p.column - 1 + m.stringDelimiter.length
    message := "unterminated string literal"
    severity := warning
    source := "orsonlex" }

def diagnostics (m : Mode) (t : Text) (r : Classification) : List Diagnostic :=
  (r.regions.filter (·.isOpenString)).map (openStringWarning m (LineIndex.ofText t))

def modeFor (registry : Registry) (uri : String) : Mode :=
  registry.modeFor (Path.ofString (String.ofList (uri.toList.reverse.takeWhile (· ≠ '/')).reverse))

structure Place where
  line : Int
  column : Int
  deriving DecidableEq, Repr

/-- The range to read for two places: it begins with the line of the first. -/
def requestedRange (t : Text) (first last : Place) : Nat × Nat :=
  let ix := LineIndex.ofText t
  (t.lineStart (ix.offset (first.line + 1) (first.column + 1)),
    ix.offset (last.line + 1) (last.column + 1))

structure Session where
  registry : Registry
  documents : List (String × Text)
  journal : Journal

namespace Session

def start : Session := ⟨Registry.initial, [], .empty⟩

def document (s : Session) (uri : String) : Text :=
  ((s.documents.find? (·.1 == uri)).map (·.2)).getD #[]

def register (s : Session) (m : Mode) : Session := { s with registry := s.registry.register m }

/-- A document is opened or replaced as a whole, and its warnings are told; none where it has no
classification, and then it is not kept. -/
def put (s : Session) (uri : String) (t : Text) : Option Notification × Session :=
  let m := modeFor s.registry uri
  let (result, journal) := Journal.classify m t 0 none s.journal
  match result with
  | none => (none, { s with journal })
  | some r =>
    (some ⟨uri, diagnostics m t r⟩, { s with documents := (uri, t) :: s.documents, journal })

def tokensIn (s : Session) (uri : String) (start : Int) (stop : Option Int) :
    Option (List Int) × Session :=
  let t := s.document uri
  let (result, journal) := Journal.classify (modeFor s.registry uri) t start stop s.journal
  (result.map (SemanticTokens.encode t), { s with journal })

def tokens (s : Session) (uri : String) : Option (List Int) × Session := s.tokensIn uri 0 none

def tokensBetween (s : Session) (uri : String) (first last : Place) : Option (List Int) × Session :=
  let (start, stop) := requestedRange (s.document uri) first last
  s.tokensIn uri start (some (stop : Int))

end Session

end OrsonHighlight.Editor
