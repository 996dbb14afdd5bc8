import OrsonHighlight.Text

set_option autoImplicit false

namespace OrsonHighlight

inductive TokenClass where
  | operator
  | clauseKeyword
  | quotedName
  | plainName
  | simpleType
  | jokerType
  | string
  | comment
  deriving DecidableEq, Repr

namespace TokenClass

def all : List TokenClass :=
  [operator, clauseKeyword, quotedName, plainName, simpleType, jokerType, string, comment]

def name : TokenClass → String
  | operator => "OPERATOR"
  | clauseKeyword => "CLAUSE_KEYWORD"
  | quotedName => "QUOTED_NAME"
  | plainName => "PLAIN_NAME"
  | simpleType => "SIMPLE_TYPE"
  | jokerType => "JOKER_TYPE"
  | string => "STRING"
  | comment => "COMMENT"

def lowerName : TokenClass → String
  | operator => "operator"
  | clauseKeyword => "clause_keyword"
  | quotedName => "quoted_name"
  | plainName => "plain_name"
  | simpleType => "simple_type"
  | jokerType => "joker_type"
  | string => "string"
  | comment => "comment"

def index : TokenClass → Nat
  | operator => 0
  | clauseKeyword => 1
  | quotedName => 2
  | plainName => 3
  | simpleType => 4
  | jokerType => 5
  | string => 6
  | comment => 7

theorem all_getElem?_index (c : TokenClass) : all[c.index]? = some c := by cases c <;> rfl

def ofName? (s : String) : Option TokenClass := all.find? (·.name == s)

def isCode : TokenClass → Bool
  | string | comment => false
  | _ => true

end TokenClass

/-- The positions from `start` up to `stop`, which may lie outside any text. -/
structure Span where
  start : Int
  stop : Int
  cls : TokenClass
  deriving DecidableEq, Repr

namespace Span

def length (s : Span) : Int := s.stop - s.start

def chars (s : Span) (t : Text) : List Char := t.cut s.start s.stop

def covers (s : Span) (o : Int) : Bool := s.start ≤ o && o < s.stop

end Span

end OrsonHighlight
