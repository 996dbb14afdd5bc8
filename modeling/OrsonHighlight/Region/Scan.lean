import OrsonHighlight.Region

/-!
One forward reading that finds strings and comments together, so that neither opens inside the
other. A string may not hold the first character of its delimiter. Where such a character comes
before a closing delimiter the literal is broken and read as code.
-/

set_option autoImplicit false

namespace OrsonHighlight

/-- What opens a comment, and the delimiter of strings by its first character and the rest. -/
structure Conventions where
  comment : List Char
  quote : Char
  quoteRest : List Char
  deriving DecidableEq, Repr

namespace Conventions

def delimiter (c : Conventions) : List Char := c.quote :: c.quoteRest

@[simp] theorem delimiter_ne_nil (c : Conventions) : c.delimiter ≠ [] := by simp [delimiter]

def width (c : Conventions) : Nat := c.delimiter.length

theorem width_pos (c : Conventions) : 0 < c.width := by simp [width, delimiter]

def of? (comment delimiter : String) : Option Conventions :=
  match delimiter.toList with
  | [] => none
  | q :: rest => some ⟨comment.toList, q, rest⟩

theorem of?_eq_none {comment delimiter : String} :
    of? comment delimiter = none ↔ delimiter.toList = [] := by
  unfold of?; split <;> simp_all

end Conventions

def isLineEnd (c : Char) : Bool := c == '\n' || c == '\r'

/-- What opens at a trigger: a region, or a broken literal from its delimiter to where reading goes
on. -/
inductive Opening where
  | region (r : Region)
  | broken (start stop : Nat)
  deriving DecidableEq, Repr

namespace Opening

def region? : Opening → Option Region
  | region r => some r
  | broken _ _ => none

end Opening

namespace Conventions

/-- The end of the line, searched from the trigger itself. -/
def commentEnd (t : Text) (p : Nat) : Nat :=
  (Text.firstBetween (fun i => t[i]?.any isLineEnd) p t.size).getD t.size

/-- A broken literal lasts to the end of the next delimiter, or else only past the lone quote. -/
def afterBroken (c : Conventions) (t : Text) (lone : Nat) : Nat :=
  match t.find? c.delimiter (lone + 1) with
  | some closer => closer + c.width
  | none => lone + 1

def openString (c : Conventions) (t : Text) (p : Nat) : Opening × Nat :=
  match t.findChar? c.quote (p + c.width) with
  | none => (.region ⟨.string, p, t.size, false⟩, t.size)
  | some q =>
    if t.occursAt q c.delimiter then
      (.region ⟨.string, p, (q + c.width - 1 : Nat), true⟩, q + c.width)
    else (.broken p (c.afterBroken t q), c.afterBroken t q)

def openAt (c : Conventions) (t : Text) (p : Nat) : Option (Opening × Nat) :=
  if t.occursAt p c.comment then
    some (.region ⟨.comment, p, commentEnd t p, true⟩, commentEnd t p)
  else if t.occursAt p c.delimiter then some (c.openString t p)
  else none

def openings (c : Conventions) (t : Text) (a b : Nat) : List Opening := Text.sweep (c.openAt t) a b

/-- The regions that open in the range; they are followed to their ends even past it. -/
def regions (c : Conventions) (t : Text) (a b : Nat) : List Region :=
  (c.openings t a b).filterMap Opening.region?

def scan (c : Conventions) (t : Text) (start : Int) (stop : Option Int) : List Region :=
  c.regions t start.toNat (match stop with | none => t.size | some b => min b.toNat t.size)

end Conventions

end OrsonHighlight
