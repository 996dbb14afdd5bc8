import OrsonHighlight.Render.Segments

set_option autoImplicit false

namespace OrsonHighlight.Html

def style : TokenClass → String
  | .operator => "operator"
  | .clauseKeyword => "keyword"
  | .quotedName => "constant"
  | .plainName => "builtin"
  | .simpleType => "type"
  | .jokerType => "joker"
  | .string => "string"
  | .comment => "comment"

def escapeChar (c : Char) : List Char :=
  if c = '&' then ['&', 'a', 'm', 'p', ';']
  else if c = '<' then ['&', 'l', 't', ';']
  else if c = '>' then ['&', 'g', 't', ';']
  else [c]

def escape (s : List Char) : List Char := s.flatMap escapeChar

def segment (s : Segment) : List Char :=
  match s.cls with
  | none => escape s.chars
  | some cls =>
    "<span class=\"orson-".toList ++ (style cls).toList ++ "\">".toList ++ escape s.chars ++
      "</span>".toList

def document (segments : List Segment) : List Char :=
  "<pre class=\"orson\">".toList ++ segments.flatMap segment ++ "</pre>\n".toList

def render (t : Text) (r : Classification) : String :=
  String.ofList (document (Segment.ofClassification t r))

end OrsonHighlight.Html
