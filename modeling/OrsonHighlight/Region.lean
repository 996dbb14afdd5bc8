import OrsonHighlight.Token

set_option autoImplicit false

namespace OrsonHighlight

inductive RegionKind where
  | string
  | comment
  deriving DecidableEq, Repr

namespace RegionKind

def name : RegionKind → String
  | string => "STRING"
  | comment => "COMMENT"

def lowerName : RegionKind → String
  | string => "string"
  | comment => "comment"

def cls : RegionKind → TokenClass
  | string => .string
  | comment => .comment

end RegionKind

/-- A string lies from its first fence to its last, and one that is not terminated runs to the end
of the text. A comment lies from its trigger up to the end of its line, which is not part of it. -/
structure Region where
  kind : RegionKind
  opening : Int
  closing : Int
  terminated : Bool
  deriving DecidableEq, Repr

namespace Region

def isTerminatedString (r : Region) : Bool := r.kind == .string && r.terminated

def isOpenString (r : Region) : Bool := r.kind == .string && !r.terminated

def stop (r : Region) : Int := if r.isTerminatedString then r.closing + 1 else r.closing

def span (r : Region) : Span := ⟨r.opening, r.stop, r.kind.cls⟩

end Region

inductive Fence where
  | opening
  | closing
  deriving DecidableEq, Repr

namespace Fence

def name : Fence → String
  | opening => "OPEN"
  | closing => "CLOSE"

def lowerName : Fence → String
  | opening => "open"
  | closing => "close"

end Fence

/-- Fences by ascending offset, one at each. -/
abbrev Fences := List (Int × Fence)

namespace Fences

def put (offset : Int) (fence : Fence) : Fences → Fences
  | [] => [(offset, fence)]
  | (o, f) :: rest =>
    if offset < o then (offset, fence) :: (o, f) :: rest
    else if offset = o then (offset, fence) :: rest
    else (o, f) :: put offset fence rest

def ofList (entries : List (Int × Fence)) : Fences := entries.foldl (fun fs e => put e.1 e.2 fs) []

def at? (fences : Fences) (offset : Int) : Option Fence := (fences.find? (·.1 == offset)).map (·.2)

def ofRegion (start stop : Int) (r : Region) : List (Int × Fence) :=
  if r.kind = .string then
    (if start ≤ r.opening ∧ r.opening < stop then [(r.opening, .opening)] else []) ++
      (if r.terminated ∧ start ≤ r.closing ∧ r.closing < stop then [(r.closing, .closing)] else [])
  else []

def ofRegions (start stop : Int) (rs : List Region) : Fences :=
  ofList (rs.flatMap (ofRegion start stop))

end Fences

end OrsonHighlight
