import OrsonHighlight.Toml.Moment
import OrsonHighlight.Toml.Number

set_option autoImplicit false

namespace OrsonHighlight.Toml

abbrev Key := List String

def keyPart (cs : List Char) : Except Fault (Rest String) :=
  match cs with
  | '"' :: rest => (oneLine '"' rest).map fun (s, rest) => (String.ofList s, rest)
  | '\'' :: rest => (oneLine '\'' rest).map fun (s, rest) => (String.ofList s, rest)
  | _ =>
    match cs.takeWhile isBareKey with
    | [] => .error .invalid
    | name => .ok (String.ofList name, cs.dropWhile isBareKey)

def key : Nat → List Char → Except Fault (Rest Key)
  | 0, _ => .error .invalid
  | fuel + 1, cs => do
    let (part, rest) ← keyPart cs
    match skipSpace rest with
    | '.' :: rest => do
      let (parts, rest) ← key fuel (skipSpace rest)
      return (part :: parts, rest)
    | rest => return ([part], rest)

def dottedKey (cs : List Char) : Except Fault (Rest Key) := key (cs.length + 1) cs

/-- Changes the entries of the table at a path; tables that are not there yet are made. The path
leads into the last table of an array only where `intoArrays` says so. None where something else
stands on the path. -/
def Entries.change (intoArrays : Bool) (f : Entries → Option Entries) :
    Key → Entries → Option Entries
  | [], es => f es
  | k :: path, es =>
    match es.get? k with
    | none => (Entries.change intoArrays f path []).map fun inner => es.put k (.table inner)
    | some (.table inner) =>
      (Entries.change intoArrays f path inner).map fun inner => es.put k (.table inner)
    | some (.array items) =>
      match intoArrays, items.getLast? with
      | true, some (.table inner) =>
        (Entries.change intoArrays f path inner).map fun inner =>
          es.put k (.array (items.dropLast ++ [.table inner]))
      | _, _ => none
    | some _ => none

def Entries.add (intoArrays : Bool) (path : Key) (v : Value) (es : Entries) : Option Entries :=
  match path.getLast? with
  | none => none
  | some stem =>
    es.change intoArrays
      (fun inner => if (inner.get? stem).isSome then none else some (inner ++ [(stem, v)]))
      path.dropLast

/-- Tables and arrays that are written out as values, and may not be changed afterwards. -/
def Value.isClosed : Value → Bool
  | .array _ => true
  | .table _ => true
  | _ => false

/-- The room for values inside values. What stands inside an array has two less of it, what stands
inside a table three. -/
def maxRoom : Nat := 985

def roomInside (cost room : Nat) : Except Fault Nat :=
  if cost ≤ room then .ok (room - cost) else .error .nestedTooDeep

mutual

def value : Nat → Nat → List Char → Except Fault (Rest Value)
  | 0, _, _ => .error .invalid
  | fuel + 1, room, cs =>
    match cs with
    | '"' :: '"' :: '"' :: rest =>
      (manyLines '"' rest).map fun (s, rest) => (.string (String.ofList s), rest)
    | '"' :: rest => (oneLine '"' rest).map fun (s, rest) => (.string (String.ofList s), rest)
    | '\'' :: '\'' :: '\'' :: rest =>
      (manyLines '\'' rest).map fun (s, rest) => (.string (String.ofList s), rest)
    | '\'' :: rest => (oneLine '\'' rest).map fun (s, rest) => (.string (String.ofList s), rest)
    | 't' :: 'r' :: 'u' :: 'e' :: rest => .ok (.boolean true, rest)
    | 'f' :: 'a' :: 'l' :: 's' :: 'e' :: rest => .ok (.boolean false, rest)
    | '[' :: rest => do
      let room ← roomInside 2 room
      match ← skipFiller rest.length rest with
      | ']' :: rest => return (.array [], rest)
      | rest => items fuel room [] rest
    | '\x7b' :: rest => do
      let room ← roomInside 3 room
      match skipSpace rest with
      | '\x7d' :: rest => return (.table [], rest)
      | rest => fields fuel room [] [] rest
    | _ =>
      match moment? cs with
      | some (true, rest) => .ok (.moment (textBefore cs rest), rest)
      | some (false, _) => .error .invalid
      | none => number cs

/-- The items of an array from one of them on; those in `done` are read, the last first. -/
def items : Nat → Nat → List Value → List Char → Except Fault (Rest Value)
  | 0, _, _, _ => .error .invalid
  | fuel + 1, room, done, cs => do
    let (v, rest) ← value fuel room cs
    match ← skipFiller rest.length rest with
    | ']' :: rest => return (.array (v :: done).reverse, rest)
    | ',' :: rest =>
      match ← skipFiller rest.length rest with
      | ']' :: rest => return (.array (v :: done).reverse, rest)
      | rest => items fuel room (v :: done) rest
    | _ => throw .invalid

/-- The entries of a table on one line from one of them on, where the paths in `closed` hold tables
and arrays that are written out. -/
def fields : Nat → Nat → List Key → Entries → List Char → Except Fault (Rest Value)
  | 0, _, _, _, _ => .error .invalid
  | fuel + 1, room, closed, es, cs => do
    let (path, rest) ← dottedKey cs
    match rest with
    | '=' :: rest => do
      let (v, rest) ← value fuel room (skipSpace rest)
      if closed.any (·.isPrefixOf path) then throw .invalid
      match es.add false path v with
      | none => throw .invalid
      | some es =>
        match skipSpace rest with
        | '\x7d' :: rest => return (.table es, rest)
        | ',' :: rest =>
          fields fuel room (if v.isClosed then path :: closed else closed) es (skipSpace rest)
        | _ => throw .invalid
    | _ => throw .invalid

end

def entry (cs : List Char) : Except Fault (Rest (Key × Value)) := do
  let (path, rest) ← dottedKey cs
  match rest with
  | '=' :: rest => do
    let (v, rest) ← value (2 * rest.length + 2) maxRoom (skipSpace rest)
    return ((path, v), rest)
  | _ => throw .invalid

end OrsonHighlight.Toml
