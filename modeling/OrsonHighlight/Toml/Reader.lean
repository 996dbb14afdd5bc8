set_option autoImplicit false

namespace OrsonHighlight.Toml

inductive Fault where
  | invalid
  | integerTooLong
  | nestedTooDeep
  deriving DecidableEq, Repr

abbrev Rest (α : Type) := α × List Char

def isSpace (c : Char) : Bool := c == ' ' || c == '\t'

def isBareKey (c : Char) : Bool := c.isAlphanum || c == '-' || c == '_'

/-- Control characters stand nowhere, but for the tab. -/
def isControl (c : Char) : Bool := (c.toNat < 0x20 && c != '\t') || c.toNat == 0x7F

def skipSpace (cs : List Char) : List Char := cs.dropWhile isSpace

def skipBlank (cs : List Char) : List Char := cs.dropWhile fun c => isSpace c || c == '\n'

def skipComment : List Char → Except Fault (List Char)
  | '#' :: rest =>
    if (rest.takeWhile (· != '\n')).any isControl then .error .invalid
    else .ok (rest.dropWhile (· != '\n'))
  | cs => .ok cs

def skipFiller : Nat → List Char → Except Fault (List Char)
  | 0, cs => .ok cs
  | fuel + 1, cs =>
    match skipBlank cs with
    | '#' :: rest => do skipFiller fuel (← skipComment ('#' :: rest))
    | rest => .ok rest

end OrsonHighlight.Toml
