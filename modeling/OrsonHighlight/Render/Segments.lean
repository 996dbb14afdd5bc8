import OrsonHighlight.Classification

set_option autoImplicit false

namespace OrsonHighlight

structure Segment where
  chars : List Char
  cls : Option TokenClass
  deriving DecidableEq, Repr

namespace Segment

/-- Spans are taken as they come, even where they overlap or run backwards. -/
def between (t : Text) (stop pos : Int) : List Span → List Segment
  | [] => if pos < stop then [⟨t.cut pos stop, none⟩] else []
  | s :: rest =>
    (if pos < s.start then [⟨t.cut pos s.start, none⟩] else []) ++
      ⟨s.chars t, some s.cls⟩ :: between t stop s.stop rest

def ofClassification (t : Text) (r : Classification) : List Segment :=
  between t r.stop r.start r.spans

end Segment

end OrsonHighlight
