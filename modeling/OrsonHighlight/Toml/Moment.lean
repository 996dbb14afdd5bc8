import OrsonHighlight.Toml.Reader

set_option autoImplicit false

namespace OrsonHighlight.Toml

def digit? (c : Char) : Option Nat := if c.isDigit then some (c.toNat - '0'.toNat) else none

def twoDigits (low high : Nat) : List Char → Option (Nat × List Char)
  | a :: b :: rest => do
    let n := 10 * (← digit? a) + (← digit? b)
    if low ≤ n ∧ n ≤ high then some (n, rest) else none
  | _ => none

def expect (c : Char) : List Char → Option (List Char)
  | d :: rest => if d = c then some rest else none
  | [] => none

def isLeapYear (year : Nat) : Bool := year % 4 == 0 && (year % 100 != 0 || year % 400 == 0)

def daysIn (year month : Nat) : Nat :=
  if month = 2 then if isLeapYear year then 29 else 28
  else if month = 4 ∨ month = 6 ∨ month = 9 ∨ month = 11 then 30
  else 31

/-- A day written with its year, month and day, and whether there is such a day. -/
def day? (cs : List Char) : Option (Bool × List Char) := do
  let (century, cs) ← twoDigits 0 99 cs
  let (decade, cs) ← twoDigits 0 99 cs
  let (month, cs) ← twoDigits 1 12 (← expect '-' cs)
  let (day, cs) ← twoDigits 1 31 (← expect '-' cs)
  let year := 100 * century + decade
  return (1 ≤ year && day ≤ daysIn year month, cs)

def skipFraction : List Char → List Char
  | '.' :: c :: rest => if c.isDigit then rest.dropWhile Char.isDigit else '.' :: c :: rest
  | cs => cs

def time? (cs : List Char) : Option (List Char) := do
  let (_, cs) ← twoDigits 0 23 cs
  let (_, cs) ← twoDigits 0 59 (← expect ':' cs)
  let (_, cs) ← twoDigits 0 59 (← expect ':' cs)
  return skipFraction cs

def skipOffset : List Char → List Char
  | [] => []
  | c :: rest =>
    if c = 'Z' ∨ c = 'z' then rest
    else if c = '+' ∨ c = '-' then
      ((do let (_, cs) ← twoDigits 0 23 rest
           let (_, cs) ← twoDigits 0 59 (← expect ':' cs)
           return cs) : Option (List Char)).getD (c :: rest)
    else c :: rest

def skipTime : List Char → List Char
  | [] => []
  | c :: rest =>
    if c = 'T' ∨ c = 't' ∨ c = ' ' then ((time? rest).map skipOffset).getD (c :: rest)
      else c :: rest

def moment? (cs : List Char) : Option (Bool × List Char) :=
  match day? cs with
  | some (there, rest) => some (there, skipTime rest)
  | none => (time? cs).map (true, ·)

end OrsonHighlight.Toml
