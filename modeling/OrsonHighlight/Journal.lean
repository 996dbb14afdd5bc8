import OrsonHighlight.Classification
import OrsonHighlight.EnclosingBlock

set_option autoImplicit false

namespace OrsonHighlight

inductive Event where
  | compiled (table : String) (lexemes : Nat)
  | nothingToCompile (table : String)
  | openString (offset : Int)
  | classified (start stop : Int) (mode : String) (spans regions : Nat)
  | loadedDialect (path : Path)
  deriving DecidableEq, Repr

def loggerName (name : String) : String :=
  if name = "orsonlex" ∨ "orsonlex.".toList.isPrefixOf name.toList then name
    else "orsonlex." ++ name

namespace Event

def logger : Event → String
  | compiled _ _ | nothingToCompile _ => loggerName "patterns"
  | openString _ => loggerName "regions"
  | classified _ _ _ _ _ => loggerName "engine"
  | loadedDialect _ => loggerName "dialect"

def message : Event → String
  | compiled table lexemes => "compiled table " ++ table ++ " (" ++ toString lexemes ++ " lexemes)"
  | nothingToCompile table => "table " ++ table ++ " is empty; compiled to a never-matching pattern"
  | openString offset => "unterminated string at offset " ++ toString offset
  | classified start stop mode spans regions =>
    "classified [" ++ toString start ++ ", " ++ toString stop ++ ") with mode " ++ mode ++ ": " ++
      toString spans ++ " spans, " ++ toString regions ++ " regions"
  | loadedDialect path => "loaded dialect file " ++ path.toString

def line (e : Event) : String := e.logger ++ ": " ++ e.message

end Event

def LexemeTable.compileEvent (t : LexemeTable) : Event :=
  match (t.lexemes.filter (· ≠ "")).length with
  | 0 => .nothingToCompile t.name
  | n + 1 => .compiled t.name (n + 1)

def Region.events (rs : List Region) : List Event :=
  (rs.filter (·.isOpenString)).map fun r => .openString r.opening

/-- The notes so far, and the dialects whose tables are compiled, each with its word characters. -/
structure Journal where
  compiled : List (Dialect × String)
  events : List Event

namespace Journal

def empty : Journal := ⟨[], []⟩

def note (j : Journal) (es : List Event) : Journal := { j with events := j.events ++ es }

def noteCompiled (j : Journal) (m : Mode) : Journal :=
  if (m.dialect, m.wordChars) ∈ j.compiled then j
  else { compiled := (m.dialect, m.wordChars) :: j.compiled
         events := j.events ++ m.dialect.tables.map (·.compileEvent) }

/-- The notes on a classification of the range from `a` to `b`. The tables are compiled before the
regions are looked for, so that much is noted even where there is no result. -/
def noteResult (j : Journal) (m : Mode) (a b : Nat) : Option Classification → Journal
  | none => j.noteCompiled m
  | some r =>
    if a = b then j
    else (j.noteCompiled m).note
      (Region.events r.regions ++ [.classified a b m.name r.spans.length r.regions.length])

def classify (m : Mode) (t : Text) (start : Int) (stop : Option Int) (j : Journal) :
    Option Classification × Journal :=
  let (a, b) := Text.clamp t.size start stop
  let result := m.classify t start stop
  (result, j.noteResult m a b result)

@[simp] theorem classify_fst (m : Mode) (t : Text) (start : Int) (stop : Option Int) (j : Journal) :
    (classify m t start stop j).1 = m.classify t start stop := rfl

def enclosingBlock (m : Mode) (t : Text) (offset : Int) (j : Journal) :
    Option (Option Nat) × Journal :=
  (m.enclosingBlock t offset,
    match m.regionsBefore t (min offset.toNat t.size) with
    | none => j
    | some regions => j.note (Region.events regions))

@[simp] theorem enclosingBlock_fst (m : Mode) (t : Text) (offset : Int) (j : Journal) :
    (enclosingBlock m t offset j).1 = m.enclosingBlock t offset := rfl

end Journal

end OrsonHighlight
