import OrsonHighlight.Annotations
import OrsonHighlight.Lexeme.Pattern
import OrsonHighlight.Mode

set_option autoImplicit false

namespace OrsonHighlight

structure Classification where
  start : Int
  stop : Int
  spans : List Span
  regions : List Region
  fences : Fences
  deriving DecidableEq, Repr

namespace Classification

def empty (start stop : Int) : Classification := ⟨start, stop, [], [], []⟩

/-- The search ends at the first span that starts past the offset. -/
def classIn (offset : Int) : List Span → Option TokenClass
  | [] => none
  | s :: rest =>
    if s.covers offset then some s.cls else if offset < s.start then none else classIn offset rest

def classAt (r : Classification) (offset : Int) : Option TokenClass := classIn offset r.spans

def fenceAt (r : Classification) (offset : Int) : Option Fence := r.fences.at? offset

def spansOf (r : Classification) (cls : TokenClass) : List Span := r.spans.filter (·.cls == cls)

def primary (tables : List CompiledTable) (t : Text) (start stop : Int) : Annotations :=
  tables.foldl (fun a table => a.paintSpans (table.scan t start stop))
    (Annotations.blank start stop)

def ofRange (tables : List CompiledTable) (c : Conventions) (t : Text) (a b : Nat) :
    Classification :=
  let regions := c.regions t a b
  { start := a
    stop := b
    spans := ((primary tables t a b).paintSpans (regions.map (·.span))).spans
    regions := regions
    fences := Fences.ofRegions a b regions }

end Classification

namespace Mode

def compiled (m : Mode) : List CompiledTable := m.dialect.tables.map (·.compile m.wordChars)

/-- The bounds are first moved into the text. An empty range is not read; any other has no
classification where the string delimiter is empty. -/
def classify (m : Mode) (t : Text) (start : Int) (stop : Option Int) : Option Classification :=
  let (a, b) := Text.clamp t.size start stop
  if a = b then some (.empty a b)
    else m.conventions?.map (Classification.ofRange m.compiled · t a b)

end Mode

end OrsonHighlight
