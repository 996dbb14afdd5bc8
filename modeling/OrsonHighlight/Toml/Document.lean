import OrsonHighlight.Toml.Item

/-!
TOML documents: entries under headers, none of which may open or change what an earlier one has
closed.
-/

set_option autoImplicit false

namespace OrsonHighlight.Toml

/-- What is read so far. The paths in `frozen` are closed with all below them, those in `declared`
may not be declared again, and those in `dotted` join them at the next header. -/
structure Progress where
  root : Entries
  header : Key
  frozen : List Key
  declared : List Key
  dotted : List Key

namespace Progress

def start : Progress := ⟨[], [], [], [], []⟩

def isFrozen (p : Progress) (path : Key) : Bool := p.frozen.any (·.isPrefixOf path)

def isDeclared (p : Progress) (path : Key) : Bool := p.declared.contains path

def settleDotted (p : Progress) : Progress :=
  { p with declared := p.dotted ++ p.declared, dotted := [] }

def openTable (p : Progress) (path : Key) : Option Progress :=
  if p.isDeclared path || p.isFrozen path then none
  else (p.root.change true some path).map fun root =>
    { p with root, header := path, declared := path :: p.declared }

def appendTable (stem : String) (es : Entries) : Option Entries :=
  match es.get? stem with
  | none => some (es ++ [(stem, .array [.table []])])
  | some (.array items) => some (es.put stem (.array (items ++ [.table []])))
  | some _ => none

/-- The header of a table in an array; what was said below its path is forgotten. -/
def openItem (p : Progress) (path : Key) : Option Progress :=
  if p.isFrozen path then none
  else match path.getLast? with
    | none => none
    | some stem => (p.root.change true (appendTable stem) path.dropLast).map fun root =>
      { p with
        root
        header := path
        frozen := p.frozen.filter (!path.isPrefixOf ·)
        declared := path :: p.declared.filter (!path.isPrefixOf ·) }

/-- The paths that a dotted key passes through, under a header. -/
def dottedPaths (header path : Key) : List Key :=
  ((List.range path.length).drop 1).map fun n => header ++ path.take n

def addEntry (p : Progress) (path : Key) (v : Value) : Option Progress :=
  let between := dottedPaths p.header path
  if between.any p.isDeclared || p.isFrozen (p.header ++ path.dropLast) then none
  else (p.root.add true (p.header ++ path) v).map fun root =>
    { p with
      root
      dotted := between ++ p.dotted
      frozen := if v.isClosed then (p.header ++ path) :: p.frozen else p.frozen }

end Progress

def statement (p : Progress) (cs : List Char) : Except Fault (Rest Progress) :=
  match cs with
  | [] => .ok (p, [])
  | '#' :: _ => .ok (p, cs)
  | '[' :: '[' :: rest => do
    let (path, rest) ← dottedKey (skipSpace rest)
    match p.settleDotted.openItem path, rest with
    | some p, ']' :: ']' :: rest => return (p, rest)
    | _, _ => throw .invalid
  | '[' :: rest => do
    let (path, rest) ← dottedKey (skipSpace rest)
    match p.settleDotted.openTable path, rest with
    | some p, ']' :: rest => return (p, rest)
    | _, _ => throw .invalid
  | _ => do
    let ((path, v), rest) ← entry cs
    match p.addEntry path v with
    | some p => return (p, rest)
    | none => throw .invalid

def lines : Nat → Progress → List Char → Except Fault Entries
  | 0, p, _ => .ok p.root
  | fuel + 1, p, cs =>
    match skipSpace cs with
    | '\n' :: rest => lines fuel p rest
    | cs => do
      let (p, rest) ← statement p cs
      match ← skipComment (skipSpace rest) with
      | [] => return p.root
      | '\n' :: rest => lines fuel p rest
      | _ => throw .invalid

def joinLineEnds : List Char → List Char
  | [] => []
  | '\r' :: '\n' :: rest => '\n' :: joinLineEnds rest
  | c :: rest => c :: joinLineEnds rest

def read (cs : List Char) : Except Fault Entries :=
  let cs := joinLineEnds cs
  lines (cs.length + 1) .start cs

end OrsonHighlight.Toml
