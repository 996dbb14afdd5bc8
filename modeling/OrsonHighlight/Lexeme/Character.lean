import OrsonHighlight.Unicode.Alphanumeric

set_option autoImplicit false

namespace OrsonHighlight

def symbolChars : List Char :=
  ['#', '$', '%', '&', '*', '+', '-', '/', ':', '<', '=', '>', '?', '@', '\\', '^', '|', '~']

def isSymbolChar (c : Char) : Bool := symbolChars.contains c

def isWordChar (extra : List Char) (c : Char) : Bool := Unicode.isAlphanumeric c || extra.contains c

def occursIn (w : List Char) : List Char → Bool
  | [] => w.isEmpty
  | c :: rest => w.isPrefixOf (c :: rest) || occursIn w rest

/-- The test of `isWordChar` on a piece of text: letters and digits alone, or a piece of `extra`. -/
def isWordPiece (extra piece : List Char) : Bool :=
  (!piece.isEmpty && piece.all Unicode.isAlphanumeric) || occursIn piece extra

theorem occursIn_singleton (c : Char) (s : List Char) : occursIn [c] s = s.contains c := by
  induction s with
  | nil => rfl
  | cons d rest ih => simp [occursIn, ih, List.isPrefixOf, Bool.beq_eq_decide_eq]

theorem isWordPiece_singleton (extra : List Char) (c : Char) :
    isWordPiece extra [c] = isWordChar extra c := by
  simp [isWordPiece, isWordChar, occursIn_singleton]

def isSymbolPiece : List Char → Bool
  | [c] => isSymbolChar c
  | _ => false

end OrsonHighlight
