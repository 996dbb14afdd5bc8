import OrsonHighlight.Token

set_option autoImplicit false

namespace OrsonHighlight

/-- The class of one position and the number of the write that gave it. -/
structure Cell where
  cls : Option TokenClass
  write : Nat
  deriving DecidableEq, Repr

structure Annotations where
  start : Int
  stop : Int
  cells : Array Cell
  writes : Nat
  deriving DecidableEq, Repr

namespace Annotations

def fill (cell : Cell) (cells : Array Cell) (i : Nat) : Nat → Array Cell
  | 0 => cells
  | count + 1 => fill cell (cells.setIfInBounds i cell) (i + 1) count

@[simp] theorem size_fill (cell : Cell) (cells : Array Cell) (i count : Nat) :
    (fill cell cells i count).size = cells.size := by
  induction count generalizing cells i <;> simp_all [fill]

theorem getElem?_fill (cell : Cell) (cells : Array Cell) (i count k : Nat) :
    (fill cell cells i count)[k]? =
      if i ≤ k ∧ k < i + count ∧ k < cells.size then some cell else cells[k]? := by
  induction count generalizing cells i with
  | zero => simp [fill]; omega
  | succ count ih =>
    rw [fill, ih, Array.getElem?_setIfInBounds]
    simp only [Array.size_setIfInBounds]
    grind

def blank (start stop : Int) : Annotations :=
  ⟨start, stop, Array.replicate (stop - start).toNat ⟨none, 0⟩, 0⟩

/-- Paints the part of the range that is annotated; where there is none, nothing is counted as
written. -/
def paint (a : Annotations) (start stop : Int) (cls : Option TokenClass) : Annotations :=
  let low := (max start a.start - a.start).toNat
  let high := (min stop a.stop - a.start).toNat
  if low < high then
    { a with cells := fill ⟨cls, a.writes + 1⟩ a.cells low (high - low), writes := a.writes + 1 }
  else a

@[simp] theorem start_paint (a : Annotations) (start stop : Int) (cls : Option TokenClass) :
    (a.paint start stop cls).start = a.start := by unfold paint; dsimp only; split <;> rfl

@[simp] theorem stop_paint (a : Annotations) (start stop : Int) (cls : Option TokenClass) :
    (a.paint start stop cls).stop = a.stop := by unfold paint; dsimp only; split <;> rfl

def paintSpan (a : Annotations) (s : Span) : Annotations := a.paint s.start s.stop (some s.cls)

def paintSpans (a : Annotations) (ss : List Span) : Annotations := ss.foldl paintSpan a

def classAt (a : Annotations) (offset : Int) : Option TokenClass :=
  if a.start ≤ offset ∧ offset < a.stop
    then (a.cells[(offset - a.start).toNat]?).bind (·.cls) else none

def run (start stop : Int) (cell : Cell) : List Span :=
  match cell.cls with
  | some cls => [⟨start, stop, cls⟩]
  | none => []

def spansFrom (start pos : Int) (cell : Cell) : List Cell → List Span
  | [] => run start pos cell
  | c :: rest =>
    if c = cell then spansFrom start (pos + 1) cell rest
    else run start pos cell ++ spansFrom pos (pos + 1) c rest

/-- The visible parts of all writes, in order: two writes side by side stay apart. -/
def spans (a : Annotations) : List Span :=
  match a.cells.toList with
  | [] => []
  | c :: rest => spansFrom a.start (a.start + 1) c rest

end Annotations

end OrsonHighlight
