import OrsonHighlight.Text.Quoted

/-!
UTF-8: octets read as characters one octet at a time, up to the first that no text can hold.
-/

set_option autoImplicit false

namespace OrsonHighlight.Utf8

inductive Reason where
  | invalidStart
  | invalidContinuation
  | unexpectedEnd
  deriving DecidableEq, Repr

/-- The octets that could not be read: a refused first octet, or the valid beginning of a
character. -/
structure Fault where
  start : Nat
  length : Nat
  first : UInt8
  reason : Reason
  deriving DecidableEq, Repr

/-- A character under way: where it began and with what octet, how many octets are read, how many
are owed, between what bounds the next must lie, and the bits so far. -/
structure Pending where
  start : Nat
  first : UInt8
  read : Nat
  owed : Nat
  low : UInt8
  high : UInt8
  bits : Nat
  deriving DecidableEq, Repr

def lead? (start : Nat) (b : UInt8) : Option Pending :=
  if 0xC2 ≤ b ∧ b ≤ 0xDF then some ⟨start, b, 1, 1, 0x80, 0xBF, b.toNat - 0xC0⟩
  else if 0xE0 ≤ b ∧ b ≤ 0xEF then
    some ⟨start, b, 1, 2, if b = 0xE0 then 0xA0 else 0x80,
      if b = 0xED then 0x9F else 0xBF, b.toNat - 0xE0⟩
  else if 0xF0 ≤ b ∧ b ≤ 0xF4 then
    some ⟨start, b, 1, 3, if b = 0xF0 then 0x90 else 0x80,
      if b = 0xF4 then 0x8F else 0xBF, b.toNat - 0xF0⟩
  else none

def Pending.more (p : Pending) (b : UInt8) : Pending :=
  { p with read := p.read + 1, owed := p.owed - 1, low := 0x80, high := 0xBF
           bits := p.bits * 64 + (b.toNat - 0x80) }

def decodeFrom (pos : Nat) : Option Pending → List UInt8 → Except Fault (List Char)
  | none, [] => .ok []
  | some p, [] => .error ⟨p.start, p.read, p.first, .unexpectedEnd⟩
  | none, b :: rest =>
    if b < 0x80 then (Char.ofNat b.toNat :: ·) <$> decodeFrom (pos + 1) none rest
    else match lead? pos b with
      | none => .error ⟨pos, 1, b, .invalidStart⟩
      | some p => decodeFrom (pos + 1) (some p) rest
  | some p, b :: rest =>
    if p.low ≤ b ∧ b ≤ p.high then
      if p.owed = 1 then (Char.ofNat (p.more b).bits :: ·) <$> decodeFrom (pos + 1) none rest
      else decodeFrom (pos + 1) (some (p.more b)) rest
    else .error ⟨p.start, p.read, p.first, .invalidContinuation⟩

def decode (bytes : List UInt8) : Except Fault (List Char) := decodeFrom 0 none bytes

def encode (s : String) : List UInt8 := s.toUTF8.toList

def Reason.message : Reason → String
  | .invalidStart => "invalid start byte"
  | .invalidContinuation => "invalid continuation byte"
  | .unexpectedEnd => "unexpected end of data"

def Fault.message (f : Fault) : String :=
  "'utf-8' codec can't decode " ++
    (if f.length ≤ 1 then
      "byte 0x" ++ String.ofList (Quoted.hex 2 f.first.toNat) ++ " in position " ++ toString f.start
    else "bytes in position " ++ toString f.start ++ "-" ++ toString (f.start + f.length - 1)) ++
    ": " ++ f.reason.message

end OrsonHighlight.Utf8
