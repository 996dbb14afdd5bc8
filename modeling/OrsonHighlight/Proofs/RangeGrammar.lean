import Mathlib.Data.List.DropRight
import Mathlib.Data.Nat.Digits.Defs
import OrsonHighlight.Cli.Range
import OrsonHighlight.Proofs.Compositing

/-!
The texts that are read as ranges. Each side of the first colon is white space alone or one of the
ways to write a whole number, and nothing else is accepted. A number may stand in white space,
behind a sign, in digits of any script, with zeros in front and single underscores between its
digits.
-/

set_option autoImplicit false

namespace OrsonHighlight

namespace Unicode

theorem exists_of_digitFrom {blocks : List Nat} {n v : Nat} (h : digitFrom blocks n = some v) :
    ∃ z ∈ blocks, n = z + v := by
  induction blocks with
  | nil => simp [digitFrom] at h
  | cons z blocks ih =>
    simp only [digitFrom] at h
    split at h
    · simp at h
    · split at h
      · obtain rfl := Option.some.inj h
        exact ⟨z, List.mem_cons_self .., by omega⟩
      · obtain ⟨z', hz', hn⟩ := ih h
        exact ⟨z', List.mem_cons_of_mem _ hz', hn⟩

theorem digitFrom_add {blocks : List Nat}
    (hapart : blocks.Pairwise fun y z => y + 10 ≤ z) {z d : Nat}
    (hz : z ∈ blocks) (hd : d < 10) : digitFrom blocks (z + d) = some d := by
  induction blocks with
  | nil => simp at hz
  | cons y blocks ih =>
    obtain ⟨hy, hrest⟩ := List.pairwise_cons.1 hapart
    rw [digitFrom]
    rcases List.mem_cons.1 hz with rfl | hz
    · rw [if_neg (by omega), if_pos (by omega), Nat.add_sub_cancel_left]
    · have hle := hy z hz
      rw [if_neg (by omega), if_neg (by omega)]
      exact ih hrest hz

theorem toNat_ofNat_add {z d : Nat} (hz : z ∈ zeros) (hd : d < 10) :
    (Char.ofNat (z + d)).toNat = z + d := by
  have hall : ∀ y ∈ zeros, y + 10 ≤ 0xD800 ∨ 0xE000 ≤ y ∧ y + 10 ≤ 0x110000 := by decide +kernel
  have hvalid : (z + d).isValidChar := by
    have hy := hall z hz
    unfold Nat.isValidChar
    omega
  rw [Char.ofNat, dif_pos hvalid]
  rfl

theorem not_isBlank_of_digitValue? {c : Char} {v : Nat} (h : digitValue? c = some v) :
    isBlank c = false := by
  obtain ⟨z, hz, hc⟩ := exists_of_digitFrom h
  have hnone : ∀ z ∈ zeros, ∀ d < 10, blankRanges.holds (z + d) = false := by decide +kernel
  rw [isBlank, hc]
  exact hnone z hz v (digitValue?_lt_ten c v h)

end Unicode

namespace Numeral

structure Digit where
  char : Char
  value : Nat
  reads : Unicode.digitValue? char = some value

theorem Digit.char_ne (d : Digit) {c : Char} (hc : Unicode.digitValue? c = none) : d.char ≠ c := by
  intro heq
  have hreads := d.reads
  rw [heq, hc] at hreads
  simp at hreads

/-- A digit and more of them, each right behind the one before or behind one underscore. -/
def row (first : Digit) (more : List (Bool × Digit)) : List Char :=
  first.char :: more.flatMap fun d => if d.1 then ['_', d.2.char] else [d.2.char]

def rowValues (first : Digit) (more : List (Bool × Digit)) : List Nat :=
  first.value :: more.map (·.2.value)

theorem row_cons (first d : Digit) (apart : Bool) (more : List (Bool × Digit)) :
    row first ((apart, d) :: more) =
      first.char :: ((if apart then ['_'] else []) ++ row d more) := by
  cases apart <;> rfl

theorem digits_cons {c : Char} {rest : List Char} (hne : rest ≠ [])
    (hnext : rest.head? ≠ some '_') :
    digits (c :: rest) = do return (← Unicode.digitValue? c) :: (← digits rest) := by
  rw [digits]
  · exact hne
  · rintro rest' rfl
    exact hnext rfl

theorem digits_row (first : Digit) (more : List (Bool × Digit)) :
    digits (row first more) = some (rowValues first more) := by
  induction more generalizing first with
  | nil => simp [row, rowValues, digits, first.reads]
  | cons d more ih =>
    obtain ⟨apart, d⟩ := d
    rw [row_cons]
    cases apart with
    | true => simp [digits, first.reads, ih d, rowValues]
    | false =>
      -- the next digit is no underscore, so none is skipped
      have hnext : (row d more).head? ≠ some '_' :=
        fun h => d.char_ne (by decide +kernel) (Option.some.inj h)
      have hne : row d more ≠ [] := List.cons_ne_nil _ _
      rw [if_neg Bool.false_ne_true, List.nil_append, digits_cons hne hnext]
      simp [first.reads, ih d, rowValues]

theorem exists_digit_of_step {c : Char} {rest : List Char} {ds : List Nat}
    (h : (do return (← Unicode.digitValue? c) :: (← digits rest)) = some ds) :
    ∃ d : Digit, d.char = c ∧ ∃ vs, digits rest = some vs ∧ ds = d.value :: vs := by
  obtain ⟨v, hv, h⟩ := Option.bind_eq_some_iff.1 h
  obtain ⟨vs, hvs, h⟩ := Option.bind_eq_some_iff.1 h
  exact ⟨⟨c, v, hv⟩, rfl, vs, hvs, (Option.some.inj h).symm⟩

theorem exists_row_of_digits {s : List Char} {ds : List Nat} (h : digits s = some ds) :
    ∃ first more, s = row first more ∧ ds = rowValues first more := by
  fun_induction digits s generalizing ds with
  | case1 => simp at h
  | case2 c =>
    obtain ⟨v, hv, rfl⟩ := Option.map_eq_some_iff.1 h
    exact ⟨⟨c, v, hv⟩, [], rfl, rfl⟩
  | case3 c rest ih =>
    obtain ⟨d, rfl, vs, hvs, rfl⟩ := exists_digit_of_step h
    obtain ⟨first, more, rfl, rfl⟩ := ih hvs
    exact ⟨d, (true, first) :: more, rfl, rfl⟩
  | case4 c rest _ _ ih =>
    obtain ⟨d, rfl, vs, hvs, rfl⟩ := exists_digit_of_step h
    obtain ⟨first, more, rfl, rfl⟩ := ih hvs
    exact ⟨d, (false, first) :: more, rfl, rfl⟩

theorem valueOf_eq_ofDigits (ds : List Nat) : valueOf ds = Nat.ofDigits 10 ds.reverse := by
  induction ds using List.reverseRecOn with
  | nil => rfl
  | append_singleton ds d ih =>
    rw [List.reverse_append, List.reverse_singleton, List.singleton_append, Nat.ofDigits_cons, ← ih]
    simp [valueOf, Nat.add_comm]

inductive Sign where
  | bare
  | plus
  | minus
  deriving DecidableEq, Repr

namespace Sign

def text : Sign → List Char
  | bare => []
  | plus => ['+']
  | minus => ['-']

def apply : Sign → Nat → Int
  | bare, n => n
  | plus, n => n
  | minus, n => -n

end Sign

structure Spelling where
  left : List Char
  sign : Sign
  first : Digit
  /-- The other digits, each with whether an underscore stands before it. -/
  more : List (Bool × Digit)
  right : List Char
  blank_left : ∀ c ∈ left, Unicode.isNumeralBlank c = true
  blank_right : ∀ c ∈ right, Unicode.isNumeralBlank c = true
  length_le : 1 + more.length ≤ 4300

namespace Spelling

def core (p : Spelling) : List Char := p.sign.text ++ row p.first p.more

def text (p : Spelling) : List Char := p.left ++ p.core ++ p.right

/-- The last digit counts ones, the one before it tens, and so on. -/
def value (p : Spelling) : Int := p.sign.apply (Nat.ofDigits 10 (rowValues p.first p.more).reverse)

end Spelling

theorem trim_eq_rdropWhile (blank : Char → Bool) (s : List Char) :
    trim blank s = (s.dropWhile blank).rdropWhile blank := rfl

theorem exists_trim (blank : Char → Bool) (s : List Char) :
    ∃ left right, s = left ++ trim blank s ++ right ∧
      (∀ c ∈ left, blank c = true) ∧ ∀ c ∈ right, blank c = true := by
  refine ⟨s.takeWhile blank, (s.dropWhile blank).rtakeWhile blank, ?_,
    fun c hc => List.mem_takeWhile_imp hc, fun c hc => List.mem_rtakeWhile_imp hc⟩
  rw [List.append_assoc, trim_eq_rdropWhile, List.rdropWhile_append_rtakeWhile,
    List.takeWhile_append_dropWhile]

theorem dropWhile_append {blank : Char → Bool} {left s : List Char}
    (hl : ∀ c ∈ left, blank c = true)
    (hs : ∀ c, s.head? = some c → blank c = false) : (left ++ s).dropWhile blank = s := by
  rw [List.dropWhile_append_of_pos hl]
  cases s with
  | nil => rfl
  | cons c s => exact List.dropWhile_cons_of_neg (by simp [hs c rfl])

theorem trim_append {blank : Char → Bool} {left core right : List Char}
    (hl : ∀ c ∈ left, blank c = true)
    (hr : ∀ c ∈ right, blank c = true) (hne : core ≠ []) (hcore : ∀ c ∈ core, blank c = false) :
    trim blank (left ++ core ++ right) = core := by
  have hfirst : ∀ c, (core ++ right).head? = some c → blank c = false := by
    intro c hc
    rw [List.head?_append_of_ne_nil _ hne] at hc
    exact hcore c (List.mem_of_mem_head? hc)
  have hlast : ∀ c, core.reverse.head? = some c → blank c = false := by
    intro c hc
    exact hcore c (List.mem_reverse.1 (List.mem_of_mem_head? hc))
  have hright : ∀ c ∈ right.reverse, blank c = true := fun c hc => hr c (List.mem_reverse.1 hc)
  rw [trim, List.append_assoc, dropWhile_append hl hfirst, List.reverse_append,
    dropWhile_append hright hlast, List.reverse_reverse]

theorem mem_row {first : Digit} {more : List (Bool × Digit)} {c : Char} (h : c ∈ row first more) :
    c = '_' ∨ ∃ d : Digit, c = d.char := by
  induction more generalizing first with
  | nil => exact .inr ⟨first, List.mem_singleton.1 h⟩
  | cons d more ih =>
    obtain ⟨apart, d⟩ := d
    rw [row_cons, List.mem_cons, List.mem_append] at h
    rcases h with rfl | h | h
    · exact .inr ⟨first, rfl⟩
    · cases apart with
      | true => exact .inl (List.mem_singleton.1 h)
      | false => exact absurd h List.not_mem_nil
    · exact ih h

theorem unsigned_eq_some_iff {s : List Char} {n : Nat} :
    unsigned s = some n ↔ ∃ first more, s = row first more ∧
      1 + more.length ≤ maxDigits ∧ n = Nat.ofDigits 10 (rowValues first more).reverse := by
  have hlength : ∀ first more, (rowValues first more).length = 1 + more.length := by
    simp [rowValues, Nat.add_comm]
  constructor
  · intro h
    obtain ⟨ds, hds, h⟩ := Option.bind_eq_some_iff.1 h
    obtain ⟨first, more, rfl, rfl⟩ := exists_row_of_digits hds
    split at h
    · rename_i hfew
      rw [hlength] at hfew
      rw [valueOf_eq_ofDigits] at h
      exact ⟨first, more, rfl, hfew, (Option.some.inj h).symm⟩
    · simp at h
  · rintro ⟨first, more, rfl, hfew, rfl⟩
    simp [unsigned, digits_row, hlength, hfew, valueOf_eq_ofDigits]

namespace Spelling

theorem core_ne_nil (p : Spelling) : p.core ≠ [] := by simp [core, row]

theorem mem_core {p : Spelling} {c : Char} (h : c ∈ p.core) :
    c ∈ ['+', '-', '_'] ∨ ∃ d : Digit, c = d.char := by
  rcases List.mem_append.1 h with h | h
  · have hsign : ∀ sign : Sign, c ∈ sign.text → c ∈ ['+', '-', '_'] := by
      rintro (_ | _ | _) hc <;> simp_all [Sign.text]
    exact .inl (hsign p.sign h)
  · rcases mem_row h with rfl | hdigit
    · exact .inl (by decide)
    · exact .inr hdigit

theorem not_isBlank_of_mem_core {p : Spelling} {c : Char} (h : c ∈ p.core) :
    Unicode.isBlank c = false := by
  have hmarks : ['+', '-', '_'].all (!Unicode.isBlank ·) = true := by decide +kernel
  rcases mem_core h with hmark | ⟨d, rfl⟩
  · simpa using List.all_eq_true.1 hmarks c hmark
  · exact Unicode.not_isBlank_of_digitValue? d.reads

theorem colon_not_mem_text (p : Spelling) : ':' ∉ p.text := by
  have hblank : Unicode.isNumeralBlank ':' = false := by decide +kernel
  intro h
  rcases List.mem_append.1 h with h | h
  · rcases List.mem_append.1 h with h | h
    · simp [p.blank_left _ h] at hblank
    · rcases mem_core h with hmark | ⟨d, hd⟩
      · simp at hmark
      · exact d.char_ne (by decide +kernel) hd.symm
  · simp [p.blank_right _ h] at hblank

theorem trim_text (p : Spelling) : trim Unicode.isNumeralBlank p.text = p.core :=
  trim_append p.blank_left p.blank_right p.core_ne_nil fun c hc => by
    simp [Unicode.isNumeralBlank, not_isBlank_of_mem_core hc]

theorem read?_text (p : Spelling) : read? p.text = some p.value := by
  have hminus : p.first.char ≠ '-' := p.first.char_ne (by decide +kernel)
  have hplus : p.first.char ≠ '+' := p.first.char_ne (by decide +kernel)
  have hrow := unsigned_eq_some_iff.2 ⟨p.first, p.more, rfl, p.length_le, rfl⟩
  rw [read?, trim_text, core, value]
  cases p.sign with
  | bare =>
    -- what begins with a digit begins with no sign
    rw [Sign.text, List.nil_append]
    split
    · rename_i heq
      exact absurd (List.cons.inj heq).1 hminus
    · rename_i heq
      exact absurd (List.cons.inj heq).1 hplus
    · rw [hrow]
      rfl
  | plus => simp [Sign.text, hrow, Sign.apply]
  | minus => simp [Sign.text, hrow, Sign.apply]

end Spelling

theorem exists_spelling_of_trim {s rest : List Char} {n : Int} (sign : Sign)
    (htrim : trim Unicode.isNumeralBlank s = sign.text ++ rest)
    (h : ∃ k, unsigned rest = some k ∧ sign.apply k = n) :
    ∃ p : Spelling, p.text = s ∧ p.value = n := by
  obtain ⟨left, right, hs, hl, hr⟩ := exists_trim Unicode.isNumeralBlank s
  obtain ⟨k, hk, rfl⟩ := h
  obtain ⟨first, more, rfl, hfew, rfl⟩ := unsigned_eq_some_iff.1 hk
  exact ⟨⟨left, sign, first, more, right, hl, hr, hfew⟩, by rw [hs, htrim]; rfl, rfl⟩

/-- The reader takes all the spellings and nothing else. -/
theorem read?_eq_some_iff {s : List Char} {n : Int} :
    read? s = some n ↔ ∃ p : Spelling, p.text = s ∧ p.value = n := by
  constructor
  · intro h
    unfold read? at h
    split at h
    · rename_i rest htrim
      exact exists_spelling_of_trim .minus htrim
        (by simpa [Option.bind_eq_some_iff, Sign.apply] using h)
    · rename_i rest htrim
      exact exists_spelling_of_trim .plus htrim
        (by simpa [Option.bind_eq_some_iff, Sign.apply] using h)
    · have htrim : trim Unicode.isNumeralBlank s =
          Sign.bare.text ++ trim Unicode.isNumeralBlank s := rfl
      exact exists_spelling_of_trim .bare htrim
        (by simpa [Option.bind_eq_some_iff, Sign.apply] using h)
  · rintro ⟨p, rfl, rfl⟩
    exact p.read?_text

theorem exists_digit {z d : Nat} (hz : z ∈ Unicode.zeros) (hd : d < 10) :
    ∃ digit : Digit, digit.value = d ∧ digit.char.toNat = z + d := by
  have hchar : (Char.ofNat (z + d)).toNat = z + d := Unicode.toNat_ofNat_add hz hd
  refine ⟨⟨Char.ofNat (z + d), d, ?_⟩, rfl, hchar⟩
  rw [Unicode.digitValue?, hchar]
  exact Unicode.digitFrom_add (by decide +kernel) hz hd

theorem exists_row {z : Nat} (hz : z ∈ Unicode.zeros) (d : Nat) (ds : List Nat)
    (h : ∀ v ∈ d :: ds, v < 10) :
    ∃ first more, rowValues first more = d :: ds ∧
      ∀ c ∈ row first more, z ≤ c.toNat ∧ c.toNat < z + 10 := by
  induction ds generalizing d with
  | nil =>
    obtain ⟨first, rfl, hplace⟩ := exists_digit hz (h d (by simp))
    exact ⟨first, [], rfl, by simpa [row, hplace] using h⟩
  | cons e ds ih =>
    obtain ⟨hd, hds⟩ := List.forall_mem_cons.1 h
    obtain ⟨first, rfl, hplace⟩ := exists_digit hz hd
    obtain ⟨next, more, hvalues, hrow⟩ := ih e hds
    refine ⟨first, (false, next) :: more, by rw [← hvalues]; rfl, ?_⟩
    rw [row_cons]
    exact List.forall_mem_cons.2 ⟨by omega, hrow⟩

theorem exists_spelling {n z : Nat} (hn : (Nat.digits 10 n).length ≤ 4300)
    (hz : z ∈ Unicode.zeros) :
    ∃ p : Spelling, p.value = n ∧ ∀ c ∈ p.text, z ≤ c.toNat ∧ c.toNat < z + 10 := by
  obtain ⟨d, ds, hlt, hlength, hvalue⟩ : ∃ d ds, (∀ v ∈ d :: ds, v < 10) ∧ 1 + ds.length ≤ 4300 ∧
      Nat.ofDigits 10 (d :: ds).reverse = n := by
    by_cases hzero : n = 0
    · exact ⟨0, [], by simp, by decide, by simp [hzero]⟩
    · have hne : (Nat.digits 10 n).reverse ≠ [] :=
        mt List.reverse_eq_nil_iff.1 (Nat.digits_ne_nil_iff_ne_zero.2 hzero)
      obtain ⟨d, ds, hds⟩ := List.exists_cons_of_ne_nil hne
      refine ⟨d, ds, fun v hv => ?_, ?_, ?_⟩
      · rw [← hds, List.mem_reverse] at hv
        exact Nat.digits_lt_base (by decide) hv
      · have hlen := congrArg List.length hds
        rw [List.length_reverse, List.length_cons] at hlen
        omega
      · rw [← hds, List.reverse_reverse, Nat.ofDigits_digits]
  obtain ⟨first, more, hvalues, hrow⟩ := exists_row hz d ds hlt
  have hmore : more.length = ds.length := by
    have hlen := congrArg List.length hvalues
    simpa [rowValues] using hlen
  refine ⟨⟨[], .bare, first, more, [], by simp, by simp, by omega⟩, ?_, ?_⟩
  · rw [Spelling.value, hvalues, hvalue]
    rfl
  · simpa [Spelling.text, Spelling.core, Sign.text] using hrow

end Numeral

namespace Cli

open Numeral

variable {text : String} {low high : List Char} {a : Nat} {b : Option Nat}

theorem side_eq_none_iff {s : List Char} :
    side s = some none ↔ ∀ c ∈ s, Unicode.isBlank c = true := by
  rw [← List.all_eq_true]
  by_cases hs : s.all Unicode.isBlank = true <;> simp [side, hs]

theorem side_eq_some_iff {s : List Char} {n : Int} :
    side s = some (some n) ↔ ∃ p : Spelling, p.text = s ∧ p.value = n := by
  rw [← read?_eq_some_iff]
  by_cases hs : s.all Unicode.isBlank = true
  · have hno : read? s ≠ some n := by
      intro h
      obtain ⟨p, rfl, -⟩ := read?_eq_some_iff.1 h
      obtain ⟨c, rest, hcore⟩ := List.exists_cons_of_ne_nil p.core_ne_nil
      have hc : c ∈ p.core := by simp [hcore]
      have hblank : Unicode.isBlank c = true :=
        List.all_eq_true.1 hs c (by simp [Spelling.text, hc])
      rw [Spelling.not_isBlank_of_mem_core hc] at hblank
      simp at hblank
    simp [side, hs, hno]
  · simp [side, hs]

/-- The sides of a colon say where a range begins and where it ends. The start is zero where it is
left out, the end is none, and no range ends before it starts. -/
structure IsRange (low high : List Char) (a : Nat) (b : Option Nat) : Prop where
  low : (∀ c ∈ low, Unicode.isBlank c = true) ∧ a = 0 ∨ ∃ p : Spelling, p.text = low ∧ p.value = a
  high : (∀ c ∈ high, Unicode.isBlank c = true) ∧ b = none ∨
    ∃ p : Spelling, p.text = high ∧ ∃ n, b = some n ∧ p.value = n
  le : ∀ n ∈ b, a ≤ n

structure SplitsInto (text : String) (low high : List Char) : Prop where
  toList : text.toList = low ++ ':' :: high
  first : ':' ∉ low

theorem exists_splitsInto (h : ':' ∈ text.toList) : ∃ low high, SplitsInto text low high := by
  obtain ⟨low, high, htext, hfirst⟩ := List.eq_append_cons_of_mem h
  exact ⟨low, high, htext, hfirst⟩

theorem SplitsInto.parts (h : SplitsInto text low high) :
    text.toList.takeWhile (· ≠ ':') = low ∧ text.toList.dropWhile (· ≠ ':') = ':' :: high := by
  have hlow : ∀ c ∈ low, decide (c ≠ ':') = true :=
    fun c hc => decide_eq_true fun heq => h.first (heq ▸ hc)
  rw [h.toList, List.dropWhile_append_of_pos hlow, List.takeWhile_append_of_pos hlow]
  simp

theorem parseRange_of_unread (h : SplitsInto text low high)
    (hside : side low = none ∨ side high = none) :
    parseRange text = .error (.badBounds text) := by
  unfold parseRange
  simp only [h.parts.1, h.parts.2]
  rcases hside with hlow | hhigh
  · simp [hlow]
  · cases hlow : side low <;> simp [hhigh]

theorem parseRange_of_sides {start stop : Option Int} (h : SplitsInto text low high)
    (hlow : side low = some start) (hhigh : side high = some stop) :
    parseRange text =
      if 0 ≤ start.getD 0 ∧ ∀ n ∈ stop, start.getD 0 ≤ n
        then .ok ((start.getD 0).toNat, stop.map Int.toNat)
        else .error (.badBounds text) := by
  unfold parseRange
  simp only [h.parts.1, h.parts.2, hlow, hhigh]
  by_cases hneg : start.getD 0 < 0
  · simp [hneg]
  · cases stop with
    | none => simp [hneg, Int.not_lt.1 hneg]
    | some n =>
      by_cases hlt : n < start.getD 0 <;> simp [hneg, Int.not_lt.1 hneg, hlt, Int.not_lt.1]

theorem isRange_iff_sides : IsRange low high a b ↔
    (∃ start, side low = some start ∧ start.getD 0 = a) ∧ side high = some (b.map Int.ofNat) ∧
    ∀ n ∈ b, a ≤ n := by
  constructor
  · intro h
    refine ⟨?_, ?_, h.le⟩
    · rcases h.low with ⟨hblank, rfl⟩ | hspelled
      · exact ⟨none, side_eq_none_iff.2 hblank, rfl⟩
      · exact ⟨some a, side_eq_some_iff.2 hspelled, rfl⟩
    · rcases h.high with ⟨hblank, rfl⟩ | ⟨p, htext, n, rfl, hvalue⟩
      · exact side_eq_none_iff.2 hblank
      · exact side_eq_some_iff.2 ⟨p, htext, hvalue⟩
  · rintro ⟨⟨start, hlow, hstart⟩, hhigh, hle⟩
    refine ⟨?_, ?_, hle⟩
    · cases start with
      | none => exact .inl ⟨side_eq_none_iff.1 hlow, Int.natCast_inj.1 hstart.symm⟩
      | some n => exact .inr (side_eq_some_iff.1 (hlow.trans (congrArg (some ∘ some) hstart)))
    · cases b with
      | none => exact .inl ⟨side_eq_none_iff.1 hhigh, rfl⟩
      | some n =>
        obtain ⟨p, htext, hvalue⟩ := side_eq_some_iff.1 hhigh
        exact .inr ⟨p, htext, n, rfl, hvalue⟩

theorem parseRange_of_sides_eq_ok_iff {start stop : Option Int} (h : SplitsInto text low high)
    (hlow : side low = some start) (hhigh : side high = some stop) :
    parseRange text = .ok (a, b) ↔ start.getD 0 = a ∧ stop = b.map Int.ofNat ∧ ∀ n ∈ b, a ≤ n := by
  rw [parseRange_of_sides h hlow hhigh]
  constructor
  · intro hok
    split at hok
    · rename_i hbounds
      obtain ⟨rfl, rfl⟩ := Prod.mk.inj (Except.ok.inj hok)
      refine ⟨(Int.toNat_of_nonneg hbounds.1).symm, ?_⟩
      cases stop with
      | none => simp
      | some n =>
        have hn := hbounds.2 n rfl
        simp only [Option.map_some, Option.some.injEq, Option.mem_some_iff, forall_eq',
          Int.ofNat_eq_natCast]
        omega
    · simp at hok
  · rintro ⟨hstart, rfl, hle⟩
    have hbounds : 0 ≤ (a : Int) ∧ ∀ n ∈ b.map Int.ofNat, (a : Int) ≤ n :=
      ⟨Int.natCast_nonneg a, by simpa using hle⟩
    rw [hstart, if_pos hbounds]
    simp [Function.comp_def]

theorem parseRange_eq_ok_iff (h : SplitsInto text low high) :
    parseRange text = .ok (a, b) ↔ IsRange low high a b := by
  rw [isRange_iff_sides]
  cases hlow : side low with
  | none => simp [parseRange_of_unread h (.inl hlow)]
  | some start =>
    cases hhigh : side high with
    | none => simp [parseRange_of_unread h (.inr hhigh)]
    | some stop => simp [parseRange_of_sides_eq_ok_iff h hlow hhigh]

theorem parseRange_of_not_isRange (h : SplitsInto text low high)
    (hno : ∀ a b, ¬ IsRange low high a b) :
    parseRange text = .error (.badBounds text) := by
  cases hlow : side low with
  | none => exact parseRange_of_unread h (.inl hlow)
  | some start =>
    cases hhigh : side high with
    | none => exact parseRange_of_unread h (.inr hhigh)
    | some stop =>
      have hof := parseRange_of_sides h hlow hhigh
      split at hof
      · exact absurd ((parseRange_eq_ok_iff h).1 hof) (hno _ _)
      · exact hof

theorem parseRange_of_noColon (h : ':' ∉ text.toList) :
    parseRange text = .error (.noColon text) := by
  have hdrop : text.toList.dropWhile (· ≠ ':') = [] :=
    List.dropWhile_eq_nil_iff.2 fun c hc => decide_eq_true fun heq => h (heq ▸ hc)
  unfold parseRange
  rw [hdrop]

theorem exists_classify {m : Mode} (hm : m.Scannable) (t : Text) (hle : ∀ n ∈ b, a ≤ n) :
    ∃ r, m.classify t a (b.map Int.ofNat) = some r ∧ r.start = min a t.size ∧
      r.stop = b.elim t.size (min · t.size) := by
  obtain ⟨c, hr⟩ := hm.exists_reads
  refine ⟨_, hr.classify_eq t a (b.map Int.ofNat), ?_, ?_⟩
  · simp [Classification.ofRange, Text.clamp]
  · cases b with
    | none => simp [Classification.ofRange, Text.clamp]
    | some n =>
      have hn := hle n rfl
      simp only [Classification.ofRange, Text.clamp, Option.map_some, Option.elim_some,
        Int.ofNat_eq_natCast]
      omega

/-- What is read of a text: a range exactly if the two sides of its first colon are one, or why
there is none. The classification of a range covers what of it lies in the text that is
classified. -/
structure AcceptsExactly (text : String) : Prop where
  ok : ∀ a b, parseRange text = .ok (a, b) ↔ ∃ low high, SplitsInto text low high ∧
    IsRange low high a b
  noColon : ':' ∉ text.toList → parseRange text = .error (.noColon text)
  refused : ':' ∈ text.toList →
    (∀ low high, SplitsInto text low high → ∀ a b, ¬ IsRange low high a b) →
    parseRange text = .error (.badBounds text)
  covers : ∀ a b, parseRange text = .ok (a, b) → ∀ m : Mode, m.Scannable → ∀ t : Text,
    ∃ r, m.classify t a (b.map Int.ofNat) = some r ∧ r.start = min a t.size ∧
    r.stop = b.elim t.size (min · t.size)

theorem acceptsExactly (text : String) : AcceptsExactly text := by
  have hok : ∀ a b, parseRange text = .ok (a, b) ↔
      ∃ low high, SplitsInto text low high ∧ IsRange low high a b := by
    intro a b
    constructor
    · intro h
      by_cases hcolon : ':' ∈ text.toList
      · obtain ⟨low, high, hsplit⟩ := exists_splitsInto hcolon
        exact ⟨low, high, hsplit, (parseRange_eq_ok_iff hsplit).1 h⟩
      · simp [parseRange_of_noColon hcolon] at h
    · rintro ⟨low, high, hsplit, hrange⟩
      exact (parseRange_eq_ok_iff hsplit).2 hrange
  refine ⟨hok, parseRange_of_noColon, fun hcolon hno => ?_, fun a b h m hm t => ?_⟩
  · obtain ⟨low, high, hsplit⟩ := exists_splitsInto hcolon
    exact parseRange_of_not_isRange hsplit (hno low high hsplit)
  · obtain ⟨low, high, -, hrange⟩ := (hok a b).1 h
    exact exists_classify hm t hrange.le

theorem parseRange_spellings {p q : Spelling} (hp : p.value = a) {n : Nat}
    (hq : q.value = n) (hle : a ≤ n) :
    parseRange (String.ofList (p.text ++ ':' :: q.text)) = .ok (a, some n) := by
  have hsplit : SplitsInto (String.ofList (p.text ++ ':' :: q.text)) p.text q.text :=
    ⟨String.toList_ofList, p.colon_not_mem_text⟩
  refine (parseRange_eq_ok_iff hsplit).2 ⟨.inr ⟨p, rfl, hp⟩, .inr ⟨q, rfl, n, rfl, hq⟩, ?_⟩
  simpa using hle

theorem parseRange_accepts :
    (∀ text, AcceptsExactly text) ∧
    (∀ (p q : Spelling) (a b : Nat), p.value = a → q.value = b → a ≤ b →
      parseRange (String.ofList (p.text ++ ':' :: q.text)) = .ok (a, some b)) ∧
    ∀ n, (Nat.digits 10 n).length ≤ 4300 → ∀ z ∈ Unicode.zeros,
      ∃ p : Spelling, p.value = n ∧ ∀ c ∈ p.text, z ≤ c.toNat ∧ c.toNat < z + 10 :=
  ⟨acceptsExactly, fun _ _ _ _ hp hq hle => parseRange_spellings hp hq hle,
    fun _ hn _ hz => exists_spelling hn hz⟩

theorem parseRange_accepts_two_scripts : ∃ p q : Spelling, p.value = 7 ∧ q.value = 42 ∧
    String.ofList (p.text ++ ':' :: q.text) = "\u2003+0_7:\u0664\u0662" ∧
    parseRange (String.ofList (p.text ++ ':' :: q.text)) = .ok (7, some 42) := by
  refine ⟨⟨['\u2003'], .plus, ⟨'0', 0, by decide +kernel⟩,
    [(true, ⟨'7', 7, by decide +kernel⟩)], [],
      List.forall_mem_singleton.2 (by decide +kernel), by simp, by decide⟩,
    ⟨[], .bare, ⟨'\u0664', 4, by decide +kernel⟩, [(false, ⟨'\u0662', 2, by decide +kernel⟩)], [],
      by simp, by simp, by decide⟩, rfl, rfl, by decide +kernel, ?_⟩
  exact parseRange_accepts.2.1 _ _ 7 42 rfl rfl (by decide)

end Cli

end OrsonHighlight
