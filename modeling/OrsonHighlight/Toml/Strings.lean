import OrsonHighlight.Toml.Reader

set_option autoImplicit false

namespace OrsonHighlight.Toml

def hexValue? (c : Char) : Option Nat :=
  if '0' ≤ c ∧ c ≤ '9' then some (c.toNat - '0'.toNat)
  else if 'a' ≤ c ∧ c ≤ 'f' then some (c.toNat - 'a'.toNat + 10)
  else if 'A' ≤ c ∧ c ≤ 'F' then some (c.toNat - 'A'.toNat + 10)
  else none

def hexNumber (n : Nat) : Nat → List Char → Except Fault (Rest Nat)
  | 0, cs => .ok (n, cs)
  | _ + 1, [] => .error .invalid
  | count + 1, c :: rest =>
    match hexValue? c with
    | some v => hexNumber (16 * n + v) count rest
    | none => .error .invalid

def codePoint (count : Nat) (cs : List Char) : Except Fault (Rest (List Char)) := do
  let (n, rest) ← hexNumber 0 count cs
  if n.isValidChar then .ok ([Char.ofNat n], rest) else .error .invalid

/-- A line end, with the white space after it, that a backslash takes out of a text of many
lines. -/
def lineContinuation (cs : List Char) : Except Fault (Rest (List Char)) :=
  match skipSpace cs with
  | '\n' :: rest => .ok ([], skipBlank rest)
  | [] => .ok ([], [])
  | _ => .error .invalid

def escaped (multiline : Bool) : List Char → Except Fault (Rest (List Char))
  | 'b' :: rest => .ok (['\x08'], rest)
  | 't' :: rest => .ok (['\t'], rest)
  | 'n' :: rest => .ok (['\n'], rest)
  | 'f' :: rest => .ok (['\x0c'], rest)
  | 'r' :: rest => .ok (['\r'], rest)
  | '"' :: rest => .ok (['"'], rest)
  | '\\' :: rest => .ok (['\\'], rest)
  | 'u' :: rest => codePoint 4 rest
  | 'U' :: rest => codePoint 8 rest
  | c :: rest =>
    if multiline && (isSpace c || c == '\n') then lineContinuation (c :: rest) else .error .invalid
  | [] => .error .invalid

/-- A string with escapes up to its closing quote, or to three of them; `done` is read, the last
first. -/
def basicString (multiline : Bool) : Nat → List Char → List Char → Except Fault (Rest (List Char))
  | 0, _, _ => .error .invalid
  | fuel + 1, done, cs =>
    match cs with
    | [] => .error .invalid
    | '"' :: rest =>
      if multiline then
        match rest with
        | '"' :: '"' :: rest => .ok (done.reverse, rest)
        | _ => basicString multiline fuel ('"' :: done) rest
      else .ok (done.reverse, rest)
    | '\\' :: rest => do
      let (cs, rest) ← escaped multiline rest
      basicString multiline fuel (cs.reverse ++ done) rest
    | c :: rest =>
      if isControl c && !(multiline && c == '\n') then .error .invalid
      else basicString multiline fuel (c :: done) rest

def literalString (done : List Char) : List Char → Except Fault (Rest (List Char))
  | [] => .error .invalid
  | '\'' :: rest => .ok (done.reverse, rest)
  | c :: rest => if isControl c then .error .invalid else literalString (c :: done) rest

def literalLines (done : List Char) : List Char → Except Fault (Rest (List Char))
  | [] => .error .invalid
  | '\'' :: '\'' :: '\'' :: rest => .ok (done.reverse, rest)
  | c :: rest => if isControl c && c != '\n' then .error .invalid else literalLines (c :: done) rest

/-- One or two quotes more than the three that close a text belong to it. -/
def extraQuotes (quote : Char) (s : List Char) : List Char → List Char × List Char
  | a :: b :: rest =>
    if a = quote then if b = quote then (s ++ [quote, quote], rest) else (s ++ [quote], b :: rest)
    else (s, a :: b :: rest)
  | [a] => if a = quote then (s ++ [quote], []) else (s, [a])
  | [] => (s, [])

def skipFirstLineEnd : List Char → List Char
  | '\n' :: rest => rest
  | cs => cs

def oneLine (quote : Char) (cs : List Char) : Except Fault (Rest (List Char)) :=
  if quote = '"' then basicString false (cs.length + 1) [] cs else literalString [] cs

def manyLines (quote : Char) (cs : List Char) : Except Fault (Rest (List Char)) := do
  let cs := skipFirstLineEnd cs
  let (s, rest) ← if quote = '"' then basicString true (cs.length + 1) [] cs else literalLines [] cs
  return extraQuotes quote s rest

end OrsonHighlight.Toml
