import OrsonHighlight.Lexeme.Character
import OrsonHighlight.Lexeme.Table

/-!
Guarded matching of lexemes. A lexeme counts only where no neighbour continues the name or operator
at its edge; of several lexemes that count at one place the longest wins.
-/

set_option autoImplicit false

namespace OrsonHighlight

/-- What stands at one end of a lexeme, and so what may not touch it there. -/
inductive Edge where
  | word
  | symbol
  | free
  deriving DecidableEq, Repr

namespace Edge

def ofChar (wordChars : List Char) (c : Char) : Edge :=
  if isWordChar wordChars c then .word else if isSymbolChar c then .symbol else .free

def bars (wordChars : List Char) : Edge → Char → Bool
  | .word, c => isWordChar wordChars c
  | .symbol, c => isSymbolChar c && !wordChars.contains c
  | .free, _ => false

def admits (wordChars : List Char) (e : Edge) : Option Char → Bool
  | none => true
  | some c => !e.bars wordChars c

@[simp] theorem admits_none (wordChars : List Char) (e : Edge) :
    e.admits wordChars none = true := rfl

end Edge

/-- A lexeme, never empty, between the guards of its two ends. -/
structure GuardedLexeme where
  first : Char
  rest : List Char
  before : Edge
  after : Edge
  deriving DecidableEq, Repr

namespace GuardedLexeme

def chars (g : GuardedLexeme) : List Char := g.first :: g.rest

@[simp] theorem chars_ne_nil (g : GuardedLexeme) : g.chars ≠ [] := by simp [chars]

def length (g : GuardedLexeme) : Nat := g.chars.length

theorem length_pos (g : GuardedLexeme) : 0 < g.length := by simp [length, chars]

def ofWord? (wordChars : List Char) (w : String) : Option GuardedLexeme :=
  match w.toList with
  | [] => none
  | c :: rest =>
    some ⟨c, rest, .ofChar wordChars c, .ofChar wordChars ((c :: rest).getLast (by simp))⟩

/-- The neighbours are those of the whole text. -/
def matchesAt (wordChars : List Char) (t : Text) (p : Nat) (g : GuardedLexeme) : Bool :=
  t.occursAt p g.chars &&
    (p == 0 || g.before.admits wordChars t[p - 1]?) &&
    g.after.admits wordChars t[p + g.length]?

end GuardedLexeme

structure Pattern where
  wordChars : List Char
  alternatives : List GuardedLexeme
  deriving DecidableEq, Repr

namespace Pattern

def matchAt (pat : Pattern) (t : Text) (p : Nat) : Option Nat :=
  (pat.alternatives.find? (·.matchesAt pat.wordChars t p)).map (·.length)

def step (pat : Pattern) (t : Text) (p : Nat) : Option ((Nat × Nat) × Nat) :=
  (pat.matchAt t p).map fun n => ((p, p + n), p + n)

/-- The matches that start from `a` on and before `b`, left to right, none overlapping the one
before. None starts past the end of the text. -/
def hits (pat : Pattern) (t : Text) (a b : Nat) : List (Nat × Nat) :=
  Text.sweep (pat.step t) a (min b t.size)

end Pattern

structure CompiledTable where
  cls : TokenClass
  pattern : Pattern
  deriving DecidableEq, Repr

namespace CompiledTable

/-- Matches may run past `stop`, so the guards see what follows; their spans do not. -/
def scan (c : CompiledTable) (t : Text) (start stop : Int) : List Span :=
  (c.pattern.hits t start.toNat stop.toNat).map fun m => ⟨m.1, min m.2 stop, c.cls⟩

end CompiledTable

namespace LexemeTable

def pattern (t : LexemeTable) (wordChars : String) : Pattern :=
  ⟨wordChars.toList, t.longestFirst.filterMap (GuardedLexeme.ofWord? wordChars.toList)⟩

def compile (t : LexemeTable) (wordChars : String) : CompiledTable := ⟨t.cls, t.pattern wordChars⟩

end LexemeTable

end OrsonHighlight
