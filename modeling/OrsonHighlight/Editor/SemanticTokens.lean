import OrsonHighlight.Classification
import OrsonHighlight.Text.Lines

set_option autoImplicit false

namespace OrsonHighlight

structure LineToken where
  line : Nat
  column : Nat
  length : Int
  cls : TokenClass
  deriving DecidableEq, Repr

namespace SemanticTokens

def typeName : TokenClass → String
  | .operator => "operator"
  | .clauseKeyword => "keyword"
  | .quotedName => "enumMember"
  | .plainName => "function"
  | .simpleType => "type"
  | .jokerType => "typeParameter"
  | .string => "string"
  | .comment => "comment"

def legend : List String := TokenClass.all.map typeName

/-- The pieces of the range from `pos` to `stop` between line feeds, each by its ends; none is
empty. -/
def pieces (t : Text) (pos stop : Int) : List (Int × Int) :=
  if pos < stop then
    match Text.firstBetween (t[·]? == some '\n') (Text.bound t.size pos)
      (Text.bound t.size stop) with
    | none => [(pos, stop)]
    | some nl =>
      (if pos < nl then [(pos, (nl : Int))] else []) ++ pieces t (max (nl : Int) pos + 1) stop
  else []
termination_by (stop - pos).toNat

def token (ix : LineIndex) (cls : TokenClass) (piece : Int × Int) : LineToken :=
  let p := ix.position piece.1
  ⟨p.line - 1, p.column - 1, piece.2 - piece.1, cls⟩

def ofSpan (t : Text) (ix : LineIndex) (s : Span) : List LineToken :=
  (pieces t s.start s.stop).map (token ix s.cls)

def tokens (t : Text) (r : Classification) : List LineToken :=
  r.spans.flatMap (ofSpan t (LineIndex.ofText t))

/-- Five numbers for each token: the lines and columns from the token before it, its length, the
number of its type, and no modifiers. On a new line the column counts from the margin. -/
def encodeFrom (line column : Nat) : List LineToken → List Int
  | [] => []
  | k :: rest =>
    [(k.line : Int) - line, if k.line = line then (k.column : Int) - column else k.column, k.length,
      k.cls.index, 0] ++ encodeFrom k.line k.column rest

def encode (t : Text) (r : Classification) : List Int := encodeFrom 0 0 (tokens t r)

end SemanticTokens

end OrsonHighlight
