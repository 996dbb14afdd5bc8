import OrsonHighlight.Classification
import OrsonHighlight.Text.Quoted

set_option autoImplicit false

namespace OrsonHighlight.SpanLines

def span (t : Text) (s : Span) : List Char :=
  (toString s.start).toList ++ '\t' :: (toString s.stop).toList ++ '\t' :: s.cls.name.toList ++
    '\t' :: Quoted.encode (s.chars t)

def document (t : Text) (spans : List Span) : List Char := spans.flatMap fun s => span t s ++ ['\n']

def render (t : Text) (r : Classification) : String := String.ofList (document t r.spans)

end OrsonHighlight.SpanLines
