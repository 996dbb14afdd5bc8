import OrsonHighlight.Classification
import OrsonHighlight.Text.Lines
import OrsonHighlight.Text.Quoted

set_option autoImplicit false

namespace OrsonHighlight.Dump

def place (p : Position) : String := toString p.line ++ ":" ++ toString p.column

def range (start stop : Int) : String := "[" ++ toString start ++ ", " ++ toString stop ++ ")"

def span (t : Text) (ix : LineIndex) (s : Span) : String :=
  "  " ++ place (ix.position s.start) ++ " " ++ s.cls.name ++ " " ++
    String.ofList (Quoted.encode (s.chars t)) ++ "\n"

def region (ix : LineIndex) (r : Region) : String :=
  "  region " ++ r.kind.name ++ " " ++ place (ix.position r.opening) ++ " " ++
    range r.opening r.stop ++ (if r.terminated then "" else " (unterminated)") ++ "\n"

def fence (f : Int × Fence) : String := "  fence " ++ f.2.name ++ " @" ++ toString f.1 ++ "\n"

def render (t : Text) (r : Classification) : String :=
  let ix := LineIndex.ofText t
  String.join
    (("Classification " ++ range r.start r.stop ++ "\n") :: r.spans.map (span t ix) ++
      r.regions.map (region ix) ++ r.fences.map fence)

end OrsonHighlight.Dump
