set_option autoImplicit false

namespace OrsonHighlight

/-- A position counts the characters before it. -/
abbrev Text := Array Char

namespace Text

def ofString (s : String) : Text := s.toList.toArray

@[simp] theorem size_ofString (s : String) : (ofString s).size = s.length := by
  simp [ofString, String.length_toList]

def slice (t : Text) (a b : Nat) : List Char := (t.extract a b).toList

/-- A bound in a text of `n` characters: a negative one counts from the end, and both stay
inside. -/
def bound (n : Nat) (i : Int) : Nat := if i < 0 then (n + i).toNat else min i.toNat n

@[simp] theorem bound_natCast (n i : Nat) : bound n (i : Int) = min i n := by
  unfold bound; split <;> omega

def cut (t : Text) (a b : Int) : List Char := t.slice (bound t.size a) (bound t.size b)

def clamp (n : Nat) (start : Int) (stop : Option Int) : Nat × Nat :=
  let a := min start.toNat n
  (a, max a (match stop with | none => n | some b => min b.toNat n))

theorem clamp_fst_le_snd (n : Nat) (start : Int) (stop : Option Int) :
    (clamp n start stop).1 ≤ (clamp n start stop).2 := Nat.le_max_left _ _

theorem clamp_snd_le (n : Nat) (start : Int) (stop : Option Int) : (clamp n start stop).2 ≤ n := by
  cases stop with
  | none => exact Nat.max_le.2 ⟨Nat.min_le_right _ _, Nat.le_refl _⟩
  | some b => exact Nat.max_le.2 ⟨Nat.min_le_right _ _, Nat.min_le_right _ _⟩

def occursAt (t : Text) (p : Nat) : List Char → Bool
  | [] => true
  | c :: rest => t[p]? == some c && occursAt t (p + 1) rest

@[simp] theorem occursAt_nil (t : Text) (p : Nat) : t.occursAt p [] = true := rfl

@[simp] theorem occursAt_cons (t : Text) (p : Nat) (c : Char) (rest : List Char) :
    t.occursAt p (c :: rest) = (t[p]? == some c && t.occursAt (p + 1) rest) := rfl

theorem le_size_of_occursAt {t : Text} {p : Nat} {w : List Char} (hw : w ≠ [])
    (h : t.occursAt p w = true) : p + w.length ≤ t.size := by
  induction w generalizing p with
  | nil => exact absurd rfl hw
  | cons c rest ih =>
    simp only [occursAt_cons, Bool.and_eq_true, beq_iff_eq] at h
    have hp : p < t.size := (Array.getElem?_eq_some_iff.1 h.1).1
    cases rest with
    | nil => simp; omega
    | cons d rest' => have := ih (by simp) h.2; simp at this ⊢; omega

def firstBetween (f : Nat → Bool) (p stop : Nat) : Option Nat :=
  if p < stop then if f p then some p else firstBetween f (p + 1) stop else none
termination_by stop - p

theorem firstBetween_eq_some {f : Nat → Bool} {p stop i : Nat}
    (h : firstBetween f p stop = some i) :
    p ≤ i ∧ i < stop ∧ f i = true ∧ ∀ j, p ≤ j → j < i → f j = false := by
  fun_induction firstBetween f p stop with
  | case1 p hp hf => simp at h; subst h; exact ⟨Nat.le_refl _, hp, hf, by omega⟩
  | case2 p hp hf ih =>
    obtain ⟨h1, h2, h3, h4⟩ := ih h
    refine ⟨by omega, h2, h3, fun j hj hji => ?_⟩
    rcases Nat.eq_or_lt_of_le hj with rfl | hlt
    · simpa using hf
    · exact h4 j hlt hji
  | case3 => simp at h

theorem firstBetween_eq_none {f : Nat → Bool} {p stop : Nat} (h : firstBetween f p stop = none) :
    ∀ j, p ≤ j → j < stop → f j = false := by
  fun_induction firstBetween f p stop with
  | case1 => simp at h
  | case2 p hp hf ih =>
    intro j hj hjs
    rcases Nat.eq_or_lt_of_le hj with rfl | hlt
    · simpa using hf
    · exact ih h j hlt hjs
  | case3 p hp => omega

def findChar? (t : Text) (c : Char) (p : Nat) : Option Nat :=
  firstBetween (t[·]? == some c) p t.size

def find? (t : Text) (w : List Char) (p : Nat) : Option Nat :=
  firstBetween (t.occursAt · w) p t.size

/-- Reads from `p` up to `stop`. Where `step` finds something it says what and where to read on;
elsewhere one character is passed over, and at least one always is. -/
def sweep {α : Type} (step : Nat → Option (α × Nat)) (p stop : Nat) : List α :=
  if p < stop then
    match step p with
    | none => sweep step (p + 1) stop
    | some (found, next) => found :: sweep step (max next (p + 1)) stop
  else []
termination_by stop - p

theorem sweep_of_le {α : Type} {step : Nat → Option (α × Nat)} {p stop : Nat} (h : stop ≤ p) :
    sweep step p stop = [] := by
  rw [sweep]; simp [Nat.not_lt.2 h]

theorem sweep_of_none {α : Type} {step : Nat → Option (α × Nat)} {p stop : Nat} (h : p < stop)
    (hs : step p = none) : sweep step p stop = sweep step (p + 1) stop := by
  rw [sweep]; simp [h, hs]

theorem sweep_of_some {α : Type} {step : Nat → Option (α × Nat)} {p stop next : Nat} {found : α}
    (h : p < stop) (hs : step p = some (found, next)) :
    sweep step p stop = found :: sweep step (max next (p + 1)) stop := by
  rw [sweep]; simp [h, hs]

end Text

end OrsonHighlight
