import OrsonHighlight.Mode

set_option autoImplicit false

namespace OrsonHighlight

inductive Bracket where
  | opener (position : Nat)
  | closer
  deriving DecidableEq, Repr

namespace Mode

def bracketAt (m : Mode) (t : Text) (p : Nat) : Option (Bracket × Nat) :=
  if t.occursAt p m.blockOpen.toList then some (.opener p, p + m.blockOpen.length)
  else if t.occursAt p m.blockClose.toList then some (.closer, p + m.blockClose.length)
  else none

def brackets (m : Mode) (t : Text) (a b : Nat) : List Bracket := Text.sweep (m.bracketAt t) a b

/-- The ranges before `stop` that no region covers, from `p` on. -/
def codeRanges (p stop : Nat) : List Region → List (Nat × Nat)
  | [] => [(p, stop)]
  | r :: rest =>
    (p, min r.opening.toNat stop) ::
      if stop ≤ r.stop then [] else codeRanges r.stop.toNat stop rest

/-- The openers that are not yet closed, the innermost first; a closer without one is passed
over. -/
def stepBlock : List Nat → Bracket → List Nat
  | opened, .opener p => p :: opened
  | opened, .closer => opened.tail

def openBlocks (brackets : List Bracket) : List Nat := brackets.foldl stepBlock []

def regionsBefore (m : Mode) (t : Text) (stop : Nat) : Option (List Region) :=
  m.conventions?.map (·.regions t 0 stop)

def openBlocksBefore (m : Mode) (t : Text) (stop : Nat) (regions : List Region) : List Nat :=
  openBlocks ((codeRanges 0 stop regions).flatMap fun g => m.brackets t g.1 g.2)

/-- The offset is first moved into the text. At top level there is no opener; where the string
delimiter is empty there is no answer. -/
def enclosingBlock (m : Mode) (t : Text) (offset : Int) : Option (Option Nat) :=
  let stop := min offset.toNat t.size
  (m.regionsBefore t stop).map fun regions => (m.openBlocksBefore t stop regions).head?

end Mode

end OrsonHighlight
