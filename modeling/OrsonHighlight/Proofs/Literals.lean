import Mathlib.Algebra.Group.Nat.Defs
import Mathlib.Tactic.Common
import OrsonHighlight.Text.Quoted

/-!
Decimal numerals and quoted literals read back. A numeral is read up to the first character that is
no digit, and a literal by undoing one escape after the other, whatever its length and whichever
quote was chosen.
-/

set_option autoImplicit false

namespace OrsonHighlight

namespace Decimal

/-- No digit comes next. -/
def Apart (rest : List Char) : Prop := ∀ c, rest.head? = some c → c.isDigit = false

/-- The digits at the front as a number, and what comes after them; a leading zero stands alone. -/
def natural? (cs : List Char) : Option (Nat × List Char) :=
  let digits := cs.takeWhile Char.isDigit
  if digits = [] ∨ digits.head? = some '0' ∧ digits ≠ ['0'] then none
  else some (Nat.ofDigitChars 10 digits 0, cs.dropWhile Char.isDigit)

def integer? : List Char → Option (Int × List Char)
  | '-' :: cs => (natural? cs).map fun found => (-(found.1 : Int), found.2)
  | cs => (natural? cs).map fun found => ((found.1 : Int), found.2)

def read? (cs : List Char) : Option Int :=
  match integer? cs with
  | some (n, []) => some n
  | _ => none

theorem takeWhile_append_of_apart {digits rest : List Char} (hd : ∀ c ∈ digits, c.isDigit = true)
    (hr : Apart rest) : (digits ++ rest).takeWhile Char.isDigit = digits ∧
      (digits ++ rest).dropWhile Char.isDigit = rest := by
  rw [List.takeWhile_append_of_pos hd, List.dropWhile_append_of_pos hd]
  cases rest with
  | nil => simp
  | cons c rest =>
    have hc : ¬ c.isDigit = true := by simp [hr c rfl]
    rw [List.takeWhile_cons_of_neg hc, List.dropWhile_cons_of_neg hc, List.append_nil]
    exact ⟨rfl, rfl⟩

theorem toDigits_ne_nil (n : Nat) : Nat.toDigits 10 n ≠ [] :=
  List.ne_nil_of_length_pos Nat.length_toDigits_pos

theorem exists_toDigits_eq_cons (n : Nat) :
    ∃ d ds, Nat.toDigits 10 n = d :: ds ∧ d.isDigit = true := by
  cases hdigits : Nat.toDigits 10 n with
  | nil => exact absurd hdigits (toDigits_ne_nil n)
  | cons d ds =>
    have hmem : d ∈ Nat.toDigits 10 n := hdigits ▸ List.mem_cons_self ..
    exact ⟨d, ds, rfl, Nat.isDigit_of_mem_toDigits (by decide) (by decide) hmem⟩

theorem head?_toDigits {n : Nat} (hn : 0 < n) : (Nat.toDigits 10 n).head? ≠ some '0' := by
  induction n using Nat.strongRecOn with
  | ind n ih =>
    rw [Nat.toDigits_eq_if (by decide)]
    split
    · rename_i hlt
      have hdigits : ∀ d < 10, 0 < d → Nat.digitChar d ≠ '0' := by decide
      simpa using hdigits n hlt hn
    · rename_i hle
      have hhead := ih (n / 10) (by omega) (by omega)
      obtain ⟨d, ds, heq, -⟩ := exists_toDigits_eq_cons (n / 10)
      rw [heq] at hhead ⊢
      exact hhead

theorem natural?_toDigits (n : Nat) {rest : List Char} (hr : Apart rest) :
    natural? (Nat.toDigits 10 n ++ rest) = some (n, rest) := by
  have hdigits : ∀ c ∈ Nat.toDigits 10 n, c.isDigit = true := fun c hc =>
    Nat.isDigit_of_mem_toDigits (by decide) (by decide) hc
  obtain ⟨htake, hdrop⟩ := takeWhile_append_of_apart hdigits hr
  have hplain : ¬ (Nat.toDigits 10 n = [] ∨
      (Nat.toDigits 10 n).head? = some '0' ∧ Nat.toDigits 10 n ≠ ['0']) := by
    rintro (hnil | ⟨hzero, hlong⟩)
    · exact toDigits_ne_nil n hnil
    · cases n with
      | zero => exact hlong rfl
      | succ n => exact head?_toDigits (Nat.succ_pos n) hzero
  simp only [natural?, htake, hdrop]
  rw [if_neg hplain, Nat.ofDigitChars_toDigits (by decide) (by decide)]

theorem toList_toString (n : Int) : (toString n).toList =
    if 0 ≤ n then Nat.toDigits 10 n.toNat else '-' :: Nat.toDigits 10 (-n).toNat := by
  rw [Int.toString_eq_repr, Int.repr_eq_if]
  split
  · rw [Nat.toList_repr]
  · rw [String.toList_append, Nat.toList_repr]
    rfl

theorem exists_digitChar_of_isDigit {c : Char} (h : c.isDigit = true) :
    ∃ d < 10, c = Nat.digitChar d := by
  obtain ⟨hl, hu⟩ : 48 ≤ c.toNat ∧ c.toNat ≤ 57 := Char.isDigit_iff_toNat.1 h
  have hd : c.toNat - 48 < 10 := by omega
  refine ⟨c.toNat - 48, hd, Char.toNat_inj.1 ?_⟩
  rw [Nat.toNat_digitChar_of_lt_ten hd]
  omega

theorem forall_mem_toString {P : Char → Prop} (hminus : P '-')
    (hdigit : ∀ d < 10, P (Nat.digitChar d)) {n : Int}
    {c : Char} (hc : c ∈ (toString n).toList) : P c := by
  have hdigits : ∀ {k : Nat}, c ∈ Nat.toDigits 10 k → P c := by
    intro k hk
    obtain ⟨d, hd, rfl⟩ :=
      exists_digitChar_of_isDigit (Nat.isDigit_of_mem_toDigits (by decide) (by decide) hk)
    exact hdigit d hd
  rw [toList_toString] at hc
  split at hc
  · exact hdigits hc
  · rcases List.mem_cons.1 hc with rfl | hc
    · exact hminus
    · exact hdigits hc

theorem exists_toString_eq_cons (n : Int) :
    ∃ c cs, (toString n).toList = c :: cs ∧ (c = '-' ∨ c.isDigit = true) := by
  rw [toList_toString]
  split
  · obtain ⟨d, ds, heq, hd⟩ := exists_toDigits_eq_cons n.toNat
    exact ⟨d, ds, heq, .inr hd⟩
  · exact ⟨'-', _, rfl, .inl rfl⟩

theorem integer?_toString (n : Int) {rest : List Char} (hr : Apart rest) :
    integer? ((toString n).toList ++ rest) = some (n, rest) := by
  rw [toList_toString]
  split
  · rename_i hn
    -- a digit comes first, so the numeral is read without a sign
    obtain ⟨d, ds, heq, hd⟩ := exists_toDigits_eq_cons n.toNat
    have hsign : d ≠ '-' := fun hminus => absurd hd (by rw [hminus]; decide)
    have hread := natural?_toDigits n.toNat hr
    rw [heq] at hread ⊢
    rw [List.cons_append, integer?, ← List.cons_append, hread, Option.map_some,
      Int.toNat_of_nonneg hn]
    simpa using hsign
  · rename_i hn
    rw [List.cons_append, integer?, natural?_toDigits _ hr, Option.map_some,
      Int.toNat_of_nonneg (by omega), Int.neg_neg]

theorem read?_toString (n : Int) : read? (toString n).toList = some n := by
  have hread : integer? ((toString n).toList ++ []) = some (n, []) :=
    integer?_toString n fun c hc => by simp at hc
  rw [List.append_nil] at hread
  rw [read?, hread]

end Decimal

namespace Quoted

def hexValue? (c : Char) : Option Nat := (List.range 16).find? (Nat.digitChar · == c)

def hexNumber? (cs : List Char) : Option Nat :=
  (cs.mapM hexValue?).map (·.foldl (fun n d => 16 * n + d) 0)

/-- How many digits follow a mark that takes the number of a character. -/
def escapeWidth : Char → Option Nat
  | 'x' => some 2
  | 'u' => some 4
  | 'U' => some 8
  | _ => none

def sign? : Char → Option Char
  | 'n' => some '\n'
  | 'r' => some '\r'
  | 't' => some '\t'
  | c => if c = '\\' ∨ c = '\'' ∨ c = '"' then some c else none

def numbered? (n : Nat) : Option Char := if n.isValidChar then some (Char.ofNat n) else none

def readChar? : List Char → Option (Char × List Char)
  | [] => none
  | c :: rest =>
    if c ≠ '\\' then some (c, rest)
    else match rest with
      | [] => none
      | mark :: rest =>
        match escapeWidth mark with
        | none => (sign? mark).map (·, rest)
        | some width =>
          if rest.length < width then none
          else ((hexNumber? (rest.take width)).bind numbered?).map (·, rest.drop width)

theorem length_lt_of_readChar? {cs rest : List Char} {c : Char}
    (h : readChar? cs = some (c, rest)) :
    rest.length < cs.length := by
  unfold readChar? at h
  split at h
  · simp at h
  · split at h
    · obtain ⟨-, rfl⟩ := Prod.mk.inj (Option.some.inj h)
      simp
    · split at h
      · simp at h
      · split at h
        · obtain ⟨_, -, heq⟩ := Option.map_eq_some_iff.1 h
          obtain ⟨-, rfl⟩ := Prod.mk.inj heq
          simp only [List.length_cons]
          omega
        · split at h
          · simp at h
          · obtain ⟨_, -, heq⟩ := Option.map_eq_some_iff.1 h
            obtain ⟨-, rfl⟩ := Prod.mk.inj heq
            simp only [List.length_cons, List.length_drop]
            omega

/-- What stands before the closing quote, which is the last character and the only one of its kind
that is not escaped. -/
def body? (quote : Char) (cs : List Char) : Option (List Char) :=
  if cs = [quote] then some []
  else if cs.head? = some quote then none
  else match _found : readChar? cs with
    | none => none
    | some (c, rest) => (body? quote rest).map (c :: ·)
termination_by cs.length
decreasing_by exact length_lt_of_readChar? ‹_›

def IsQuote (quote : Char) : Prop := quote = '\'' ∨ quote = '"'

instance (quote : Char) : Decidable (IsQuote quote) := inferInstanceAs (Decidable (_ ∨ _))

def decode? : List Char → Option (List Char)
  | [] => none
  | quote :: cs => if IsQuote quote then body? quote cs else none

theorem hexValue?_digitChar {d : Nat} (h : d < 16) : hexValue? (Nat.digitChar d) = some d := by
  have hall : ∀ d < 16, hexValue? (Nat.digitChar d) = some d := by decide
  exact hall d h

theorem hexNumber?_hex (width n : Nat) : hexNumber? (hex width n) = some (n % 16 ^ width) := by
  induction width generalizing n with
  | zero => simp [hex, hexNumber?, Nat.mod_one]
  | succ width ih =>
    obtain ⟨digits, hdigits, hvalue⟩ := Option.map_eq_some_iff.1 (ih (n / 16))
    have hlast := hexValue?_digitChar (Nat.mod_lt n (show 0 < 16 by decide))
    rw [hexNumber?, hex, List.mapM_append, hdigits]
    simp [hlast, hvalue, Nat.pow_succ, Nat.mul_comm (16 ^ width) 16, Nat.mod_mul]
    omega

theorem numbered?_toNat (c : Char) : numbered? c.toNat = some c := by
  rw [numbered?, if_pos (show c.toNat.isValidChar from c.valid), Char.ofNat_toNat]

theorem readChar?_numbered {mark : Char} {width : Nat}
    (hwidth : escapeWidth mark = some width) {c : Char}
    (hc : c.toNat < 16 ^ width) (rest : List Char) :
    readChar? ('\\' :: mark :: (hex width c.toNat ++ rest)) = some (c, rest) := by
  have hlength : ¬ (hex width c.toNat ++ rest).length < width := by simp
  have htake : (hex width c.toNat ++ rest).take width = hex width c.toNat := by simp
  have hdrop : (hex width c.toNat ++ rest).drop width = rest := by simp
  simp only [readChar?, hwidth, if_neg hlength, htake, hdrop, hexNumber?_hex, Nat.mod_eq_of_lt hc,
    Option.bind_some, numbered?_toNat]
  rfl

theorem isPrintable_of_mem_hex {width n : Nat} {c : Char} (h : c ∈ hex width n) :
    Unicode.isPrintable c = true := by
  have hall : ∀ d < 16, Unicode.isPrintable (Nat.digitChar d) = true := by decide +kernel
  induction width generalizing n with
  | zero => simp [hex] at h
  | succ width ih =>
    rcases List.mem_append.1 h with h | h
    · exact ih h
    · rw [List.mem_singleton.1 h]
      exact hall _ (Nat.mod_lt n (by decide))

theorem isQuote_quoteFor (s : List Char) : IsQuote (quoteFor s) := by
  unfold quoteFor
  split
  · exact .inr rfl
  · exact .inl rfl

/-- The ways to write a character between quotes. -/
inductive Written (quote c : Char) : List Char → Prop where
  | plain : c ≠ quote → c ≠ '\\' → Unicode.isPrintable c = true → Written quote c [c]
  | sign {mark : Char} : escapeWidth mark = none → sign? mark = some c →
      Unicode.isPrintable mark = true → Written quote c ['\\', mark]
  | number {mark : Char} {width : Nat} : escapeWidth mark = some width → c.toNat < 16 ^ width →
      Unicode.isPrintable mark = true → Written quote c ('\\' :: mark :: hex width c.toNat)

theorem written_escape {quote : Char} (hq : IsQuote quote) (c : Char) :
    Written quote c (escape quote c) := by
  have hmarks : ∀ mark ∈ ['\\', '\'', '"', 'n', 'r', 't', 'x', 'u', 'U'],
      Unicode.isPrintable mark = true :=
    List.all_eq_true.1 (by decide +kernel)
  unfold escape
  split
  · rename_i hc
    obtain rfl | rfl | rfl : c = '\'' ∨ c = '"' ∨ c = '\\' := by
      rcases hc with rfl | rfl
      · exact hq.imp_right .inl
      · exact .inr (.inr rfl)
    · exact .sign rfl rfl (hmarks _ (by decide))
    · exact .sign rfl rfl (hmarks _ (by decide))
    · exact .sign rfl rfl (hmarks _ (by decide))
  · rename_i hc
    obtain ⟨hquote, hback⟩ := not_or.1 hc
    split
    · exact .sign rfl (by subst c; rfl) (hmarks _ (by decide))
    · split
      · exact .sign rfl (by subst c; rfl) (hmarks _ (by decide))
      · split
        · exact .sign rfl (by subst c; rfl) (hmarks _ (by decide))
        · split
          · exact .plain hquote hback (by assumption)
          · split
            · exact .number (show escapeWidth 'x' = some 2 from rfl) (by assumption)
                (hmarks _ (by decide))
            · split
              · exact .number (show escapeWidth 'u' = some 4 from rfl) (by assumption)
                  (hmarks _ (by decide))
              · have hlt := Nat.lt_of_lt_of_le c.val.toNat_lt (show 2 ^ 32 ≤ 16 ^ 8 by decide)
                exact .number (show escapeWidth 'U' = some 8 from rfl) hlt (hmarks _ (by decide))

namespace Written

variable {quote c : Char} {w : List Char}

theorem readChar?_append (h : Written quote c w) (rest : List Char) :
    readChar? (w ++ rest) = some (c, rest) := by
  cases h with
  | plain _ hback _ => simp [readChar?, hback]
  | sign hmark hsign _ => simp [readChar?, hmark, hsign]
  | number hwidth hlt _ => exact readChar?_numbered hwidth hlt rest

theorem head?_append_ne (h : Written quote c w) (hq : IsQuote quote) (rest : List Char) :
    (w ++ rest).head? ≠ some quote := by
  have hback : '\\' ≠ quote := by rcases hq with rfl | rfl <;> decide
  cases h with
  | plain hquote _ _ => simpa using hquote
  | sign _ _ _ => simpa using hback
  | number _ _ _ => simpa using hback

theorem isPrintable_of_mem (h : Written quote c w) {x : Char} (hx : x ∈ w) :
    Unicode.isPrintable x = true := by
  have hback : Unicode.isPrintable '\\' = true := by decide +kernel
  cases h with
  | plain _ _ hprint => rwa [List.mem_singleton.1 hx]
  | sign _ _ hmark =>
    obtain rfl | rfl : x = '\\' ∨ x = _ := by simpa using hx
    · exact hback
    · exact hmark
  | number _ _ hmark =>
    rcases List.mem_cons.1 hx with rfl | hx
    · exact hback
    · rcases List.mem_cons.1 hx with rfl | hx
      · exact hmark
      · exact isPrintable_of_mem_hex hx

end Written

theorem body?_flatMap_escape {quote : Char} (hq : IsQuote quote) (s : List Char) :
    body? quote (s.flatMap (escape quote) ++ [quote]) = some s := by
  induction s with
  | nil => simp [body?]
  | cons c s ih =>
    have hhead := (written_escape hq c).head?_append_ne hq (s.flatMap (escape quote) ++ [quote])
    have hread := (written_escape hq c).readChar?_append (s.flatMap (escape quote) ++ [quote])
    rw [List.flatMap_cons, List.append_assoc, body?, if_neg, if_neg hhead]
    · split
      · rename_i hnone
        simp [hread] at hnone
      · rename_i hsome
        obtain ⟨rfl, rfl⟩ := Prod.mk.inj (Option.some.inj (hread.symm.trans hsome))
        rw [ih]
        rfl
    · intro heq
      rw [heq] at hhead
      exact hhead rfl

theorem decode?_encode (s : List Char) : decode? (encode s) = some s := by
  have hq := isQuote_quoteFor s
  rw [encode, decode?, if_pos hq, body?_flatMap_escape hq]

theorem isPrintable_of_mem_encode {s : List Char} {c : Char} (h : c ∈ encode s) :
    Unicode.isPrintable c = true := by
  have hq := isQuote_quoteFor s
  have hquote : Unicode.isPrintable (quoteFor s) = true := by
    rcases hq with heq | heq <;> rw [heq] <;> decide +kernel
  rcases List.mem_cons.1 h with rfl | h
  · exact hquote
  · rcases List.mem_append.1 h with h | h
    · obtain ⟨x, -, hx⟩ := List.mem_flatMap.1 h
      exact (written_escape hq x).isPrintable_of_mem hx
    · rwa [List.mem_singleton.1 h]

end Quoted

end OrsonHighlight
