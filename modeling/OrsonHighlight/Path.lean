import OrsonHighlight.Unicode.Lowercase

set_option autoImplicit false

namespace OrsonHighlight

def splitAt (sep : Char) : List Char → List (List Char)
  | [] => [[]]
  | c :: rest =>
    if c = sep then [] :: splitAt sep rest
    else match splitAt sep rest with
      | [] => [[c]]
      | piece :: pieces => (c :: piece) :: pieces

theorem splitAt_cons_self (sep : Char) (cs : List Char) :
    splitAt sep (sep :: cs) = [] :: splitAt sep cs := by
  rw [splitAt, if_pos rfl]

theorem splitAt_ne_nil (sep : Char) (cs : List Char) : splitAt sep cs ≠ [] := by
  cases cs with
  | nil => simp [splitAt]
  | cons c rest =>
    rw [splitAt]
    split
    · simp
    · split <;> simp

theorem splitAt_append {sep : Char} {w cs first : List Char}
    {rest : List (List Char)} (hw : sep ∉ w)
    (h : splitAt sep cs = first :: rest) : splitAt sep (w ++ cs) = (w ++ first) :: rest := by
  induction w with
  | nil => exact h
  | cons c w ih =>
    rw [List.mem_cons, not_or] at hw
    rw [List.cons_append, splitAt, if_neg (Ne.symm hw.1), ih hw.2]
    rfl

theorem splitAt_of_not_mem {sep : Char} {w : List Char} (hw : sep ∉ w) : splitAt sep w = [w] := by
  have hcut := splitAt_append hw (show splitAt sep [] = [[]] from rfl)
  rwa [List.append_nil] at hcut

theorem splitAt_append_sep (sep : Char) (cs ds : List Char) :
    splitAt sep (cs ++ sep :: ds) = splitAt sep cs ++ splitAt sep ds := by
  induction cs with
  | nil => exact splitAt_cons_self sep ds
  | cons c cs ih =>
    by_cases hc : c = sep
    · simp [splitAt, hc, ih]
    · cases hcut : splitAt sep cs with
      | nil => exact absurd hcut (splitAt_ne_nil sep cs)
      | cons piece pieces => simp [splitAt, hc, ih, hcut]

/-- Exactly two slashes at the front are kept, any other number above none becomes one. -/
structure Path where
  slashes : Nat
  components : List String
  deriving DecidableEq, Repr

namespace Path

def ofString (s : String) : Path :=
  let lead := (s.toList.takeWhile (· == '/')).length
  { slashes := if lead ≤ 2 then lead else 1
    components := ((splitAt '/' s.toList).filter fun w => w ≠ [] ∧ w ≠ ['.']).map String.ofList }

def toString (p : Path) : String :=
  if p.slashes = 0 ∧ p.components = [] then "."
  else String.ofList (List.replicate p.slashes '/') ++ "/".intercalate p.components

def hasNull (p : Path) : Bool := p.components.any (·.toList.contains '\x00')

def name (p : Path) : String := p.components.getLast?.getD ""

def parent (p : Path) : Path := { p with components := p.components.dropLast }

def child (p : Path) (name : String) : Path := { p with components := p.components ++ [name] }

/-- From the last dot on, where a character stands on either side of it. -/
def suffixOf (n : List Char) : List Char :=
  let tail := n.reverse.takeWhile (· ≠ '.')
  let dot := n.length - 1 - tail.length
  if tail ≠ [] ∧ 0 < dot then n.drop dot else []

def suffix (p : Path) : String := String.ofList (suffixOf p.name.toList)

def suffixKey (p : Path) : String := Unicode.lowercase p.suffix

end Path

end OrsonHighlight
