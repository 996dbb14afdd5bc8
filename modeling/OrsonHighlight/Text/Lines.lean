import OrsonHighlight.Text

set_option autoImplicit false

namespace OrsonHighlight

/-- Lines and columns count from one, offsets from zero. -/
structure Position where
  line : Nat
  column : Nat
  offset : Nat
  deriving DecidableEq, Repr

def Text.lineStartAt (t : Text) : Nat → Nat
  | 0 => 0
  | p + 1 => if t[p]? = some '\n' then p + 1 else t.lineStartAt p

theorem Text.lineStartAt_le (t : Text) (p : Nat) : t.lineStartAt p ≤ p := by
  induction p with
  | zero => simp [lineStartAt]
  | succ p ih => simp only [lineStartAt]; split <;> omega

def Text.lineStart (t : Text) (offset : Int) : Nat := t.lineStartAt (min offset.toNat t.size)

/-- The starts of all lines of a text of `size` characters, ascending. -/
structure LineIndex where
  size : Nat
  starts : List Nat
  deriving DecidableEq, Repr

def LineIndex.startsFrom (p : Nat) : List Char → List Nat
  | [] => []
  | c :: rest => if c = '\n' then (p + 1) :: startsFrom (p + 1) rest else startsFrom (p + 1) rest

def LineIndex.ofText (t : Text) : LineIndex := ⟨t.size, 0 :: startsFrom 0 t.toList⟩

namespace LineIndex

def lineCount (ix : LineIndex) : Nat := ix.starts.length

def lineOf (ix : LineIndex) (offset : Nat) : Nat := (ix.starts.takeWhile (· ≤ offset)).length - 1

def startOf (ix : LineIndex) (line : Nat) : Nat := ix.starts[line]?.getD 0

def position (ix : LineIndex) (offset : Int) : Position :=
  let o := min offset.toNat ix.size
  let line := ix.lineOf o
  ⟨line + 1, o - ix.startOf line + 1, o⟩

/-- A line counted from one, moved to the nearest that there is and counted from zero. -/
def nearest (ix : LineIndex) (line : Int) : Nat := min (line - 1).toNat (ix.lineCount - 1)

def lineStart (ix : LineIndex) (line : Int) : Nat := ix.startOf (ix.nearest line)

def lineEnd (ix : LineIndex) (line : Int) : Nat :=
  match ix.starts[ix.nearest line + 1]? with
  | some next => next - 1
  | none => ix.size

def offset (ix : LineIndex) (line column : Int) : Nat :=
  min (ix.lineStart line + (column - 1).toNat) (ix.lineEnd line)

end LineIndex

end OrsonHighlight
