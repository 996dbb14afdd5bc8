import OrsonHighlight.Lexeme.Pattern

set_option autoImplicit false

namespace OrsonHighlight

namespace PatternSource

def metaChars : List Char :=
  ['\t', '\n', '\x0b', '\x0c', '\r', ' ', '#', '$', '&', '(', ')', '*', '+', '-', '.', '?', '[',
   '\\', ']', '^', '\x7b', '|', '\x7d', '~']

def escape (c : Char) : List Char := if metaChars.contains c then ['\\', c] else [c]

def literal (w : List Char) : List Char := w.flatMap escape

def insertChar (c : Char) : List Char → List Char
  | [] => [c]
  | d :: rest =>
    if c = d then d :: rest else if c < d then c :: d :: rest else d :: insertChar c rest

def sortedSet (cs : List Char) : List Char := cs.foldr insertChar []

def bracketed (cs : List Char) : List Char := '[' :: (literal cs ++ [']'])

def alphanumericClass : List Char := "[^\\W_]".toList

/-- With the underscore alone beside letters and digits there is a short form. -/
def wordClass (wordChars : List Char) : List Char :=
  if wordChars = ['_'] then ['\\', 'w']
  else match sortedSet wordChars with
    | [] => alphanumericClass
    | extra => alphanumericClass ++ '|' :: bracketed extra

def symbolClass (wordChars : List Char) : List Char :=
  bracketed (symbolChars.filter (!wordChars.contains ·))

def barred (wordChars : List Char) : Edge → Option (List Char)
  | .word => some (wordClass wordChars)
  | .symbol => some (symbolClass wordChars)
  | .free => none

def lookaround (mark : String) : Option (List Char) → List Char
  | none => []
  | some cls => '(' :: (mark.toList ++ cls ++ [')'])

def lexeme (wordChars : List Char) (g : GuardedLexeme) : List Char :=
  lookaround "?<!" (barred wordChars g.before) ++ literal g.chars ++
    lookaround "?!" (barred wordChars g.after)

def alternation : List (List Char) → List Char
  | [] => []
  | [a] => a
  | a :: rest => a ++ '|' :: alternation rest

end PatternSource

def lexemeSource? (wordChars w : String) : Option String :=
  (GuardedLexeme.ofWord? wordChars.toList w).map fun g =>
    String.ofList (PatternSource.lexeme wordChars.toList g)

/-- A pattern without alternatives is written as one that never matches. -/
def Pattern.source (pat : Pattern) : String :=
  match pat.alternatives with
  | [] => "(?!)"
  | gs => String.ofList (PatternSource.alternation (gs.map (PatternSource.lexeme pat.wordChars)))

end OrsonHighlight
