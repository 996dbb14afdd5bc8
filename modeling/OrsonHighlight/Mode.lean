import OrsonHighlight.Lexeme.Dialect
import OrsonHighlight.Path
import OrsonHighlight.Region.Scan

set_option autoImplicit false

namespace OrsonHighlight

structure Mode where
  name : String
  fileExtensions : List String
  dialect : Dialect
  commentStart : String
  stringDelimiter : String
  blockOpen : String
  blockClose : String
  /-- What continues a name besides letters and digits. -/
  wordChars : String
  deriving DecidableEq

namespace Mode

def orson : Mode where
  name := "orson"
  fileExtensions := [".op", ".os"]
  dialect := Dialect.orson
  commentStart := "!"
  stringDelimiter := "''"
  blockOpen := "("
  blockClose := ")"
  wordChars := "_"

def conventions? (m : Mode) : Option Conventions := Conventions.of? m.commentStart m.stringDelimiter

end Mode

/-- Modes by lowered extension, the latest registration first. -/
abbrev Registry := List (String × Mode)

namespace Registry

def register (r : Registry) (m : Mode) : Registry :=
  m.fileExtensions.foldl (fun r ext => (Unicode.lowercase ext, m) :: r) r

def initial : Registry := register [] Mode.orson

def lookup (r : Registry) (p : Path) : Option Mode := (r.find? (·.1 == p.suffixKey)).map (·.2)

def modeFor (r : Registry) (p : Path) : Mode := (r.lookup p).getD Mode.orson

end Registry

end OrsonHighlight
