import OrsonHighlight.Text.Numeral

set_option autoImplicit false

namespace OrsonHighlight.Cli

inductive RangeError where
  | noColon (text : String)
  | badBounds (text : String)
  deriving DecidableEq, Repr

def RangeError.message : RangeError → String
  | noColon text => "invalid range format (expected START:END): " ++ text
  | badBounds text => "invalid range bounds: " ++ text

/-- A side that is white space alone is left out; any other must be a number. -/
def side (s : List Char) : Option (Option Int) :=
  if s.all Unicode.isBlank then some none else (Numeral.read? s).map some

def parseRange (text : String) : Except RangeError (Nat × Option Nat) :=
  match text.toList.dropWhile (· ≠ ':') with
  | [] => .error (.noColon text)
  | _ :: high =>
    match side (text.toList.takeWhile (· ≠ ':')), side high with
    | some low, some high =>
      let start := low.getD 0
      if start < 0 then .error (.badBounds text)
      else match high with
        | none => .ok (start.toNat, none)
        | some stop =>
          if stop < start then .error (.badBounds text) else .ok (start.toNat, some stop.toNat)
    | _, _ => .error (.badBounds text)

end OrsonHighlight.Cli
