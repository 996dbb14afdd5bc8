import OrsonHighlight.Text.Numeral
import OrsonHighlight.Toml.Strings
import OrsonHighlight.Toml.Value

set_option autoImplicit false

namespace OrsonHighlight.Toml

def moreDigits (isDigit : Char → Bool) : List Char → List Char × List Char
  | [] => ([], [])
  | '_' :: c :: rest =>
    if isDigit c then let (ds, rest) := moreDigits isDigit rest; (c :: ds, rest)
      else ([], '_' :: c :: rest)
  | c :: rest =>
    if isDigit c then let (ds, rest) := moreDigits isDigit rest; (c :: ds, rest)
      else ([], c :: rest)

def digitRun? (isDigit : Char → Bool) : List Char → Option (List Char × List Char)
  | c :: rest =>
    if isDigit c then let (ds, rest) := moreDigits isDigit rest; some (c :: ds, rest) else none
  | [] => none

def numberIn (base : Nat) (ds : List Char) : Nat :=
  ds.foldl (fun n d => base * n + (hexValue? d).getD 0) 0

def basedInteger? : List Char → Option (Int × List Char)
  | 'x' :: rest =>
    (digitRun? (hexValue? · |>.isSome) rest).map fun (ds, rest) => ((numberIn 16 ds : Nat), rest)
  | 'o' :: rest =>
    (digitRun? (fun c => '0' ≤ c ∧ c ≤ '7') rest).map fun (ds, rest) =>
      ((numberIn 8 ds : Nat), rest)
  | 'b' :: rest =>
    (digitRun? (fun c => c = '0' ∨ c = '1') rest).map fun (ds, rest) =>
      ((numberIn 2 ds : Nat), rest)
  | _ => none

/-- A whole number without a sign; only zero begins with a zero. -/
def wholeDigits? : List Char → Option (List Char × List Char)
  | '0' :: rest => some (['0'], rest)
  | cs => digitRun? Char.isDigit cs

def skipDecimals : List Char → List Char
  | '.' :: rest => ((digitRun? Char.isDigit rest).map (·.2)).getD ('.' :: rest)
  | cs => cs

def skipSign : List Char → List Char
  | '+' :: rest => rest
  | '-' :: rest => rest
  | cs => cs

def skipExponent : List Char → List Char
  | [] => []
  | c :: rest =>
    if c = 'e' ∨ c = 'E' then ((digitRun? Char.isDigit (skipSign rest)).map (·.2)).getD (c :: rest)
      else c :: rest

def textBefore (cs rest : List Char) : String := String.ofList (cs.take (cs.length - rest.length))

def isSpecial (cs : List Char) : Bool :=
  cs.take 3 == ['i', 'n', 'f'] || cs.take 3 == ['n', 'a', 'n']

def decimal? (cs : List Char) : Option (Except Fault (Rest Value)) := do
  let (ds, rest) ← wholeDigits? (skipSign cs)
  let after := skipExponent (skipDecimals rest)
  if after.length ≠ rest.length then return .ok (.float (textBefore cs after), after)
  if Numeral.maxDigits < ds.length then return .error .integerTooLong
  let n : Int := numberIn 10 ds
  return .ok (.integer (if cs.head? = some '-' then -n else n), rest)

def special? (cs : List Char) : Option (Value × List Char) :=
  let name := skipSign cs
  if isSpecial name then some (.float (textBefore cs (name.drop 3)), name.drop 3) else none

def number (cs : List Char) : Except Fault (Rest Value) :=
  let based := match cs with
    | '0' :: rest => basedInteger? rest
    | _ => none
  match based with
  | some (n, rest) => .ok (.integer n, rest)
  | none =>
    match decimal? cs with
    | some reading => reading
    | none =>
      match special? cs with
      | some found => .ok found
      | none => .error .invalid

end OrsonHighlight.Toml
