import OrsonHighlight.Unicode.Blank
import OrsonHighlight.Unicode.DecimalDigit

/-!
Whole numbers in text: digits of any decimal script, single underscores between them, one sign
before them and white space around.
-/

set_option autoImplicit false

namespace OrsonHighlight.Numeral

def maxDigits : Nat := 4300

/-- The values of the digits, after a digit or at the beginning; an underscore stands only between
two. -/
def digits : List Char → Option (List Nat)
  | [] => none
  | [c] => (Unicode.digitValue? c).map ([·])
  | c :: '_' :: rest => do
    let v ← Unicode.digitValue? c
    return v :: (← digits rest)
  | c :: rest => do
    let v ← Unicode.digitValue? c
    return v :: (← digits rest)

def valueOf (ds : List Nat) : Nat := ds.foldl (fun n d => 10 * n + d) 0

def unsigned (s : List Char) : Option Nat := do
  let ds ← digits s
  if ds.length ≤ maxDigits then some (valueOf ds) else none

def trim (blank : Char → Bool) (s : List Char) : List Char :=
  ((s.dropWhile blank).reverse.dropWhile blank).reverse

def read? (s : List Char) : Option Int :=
  match trim Unicode.isNumeralBlank s with
  | '-' :: rest => (unsigned rest).map fun n => -(n : Int)
  | '+' :: rest => (unsigned rest).map fun n => (n : Int)
  | rest => (unsigned rest).map fun n => (n : Int)

end OrsonHighlight.Numeral
