import OrsonHighlight.Render.Segments

set_option autoImplicit false

namespace OrsonHighlight.Ansi

def style : TokenClass → String
  | .operator => "37"
  | .clauseKeyword => "1;35"
  | .quotedName => "36"
  | .plainName => "34"
  | .simpleType => "32"
  | .jokerType => "1;32"
  | .string => "33"
  | .comment => "2;3"

def select (parameters : String) : List Char := '\x1b' :: '[' :: (parameters.toList ++ ['m'])

def segment (s : Segment) : List Char :=
  match s.cls with
  | none => s.chars
  | some cls => select (style cls) ++ s.chars ++ select "0"

def render (t : Text) (r : Classification) : String :=
  String.ofList ((Segment.ofClassification t r).flatMap segment)

end OrsonHighlight.Ansi
