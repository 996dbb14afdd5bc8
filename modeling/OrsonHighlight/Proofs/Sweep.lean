import OrsonHighlight.Text

/-!
What one reading from left to right finds. The finds come in order and apart, nothing is missed
between them, a shorter reading finds the first of them, and one that begins inside none of them
finds the last of them.
-/

set_option autoImplicit false

namespace OrsonHighlight.Text

/-- Each find knows its place, from where it was found to where reading goes on, and that is further
on. -/
structure Places {α : Type} (step : Nat → Option (α × Nat)) (first last : α → Nat) : Prop where
  first_eq : ∀ {p next : Nat} {x : α}, step p = some (x, next) → first x = p
  last_eq : ∀ {p next : Nat} {x : α}, step p = some (x, next) → last x = next
  lt : ∀ {p next : Nat} {x : α}, step p = some (x, next) → p < next

theorem sweep_of_none_between {α : Type} {step : Nat → Option (α × Nat)}
    {p g stop : Nat} (hpg : p ≤ g)
    (hg : g ≤ stop) (hs : ∀ i, p ≤ i → i < g → step i = none) :
    sweep step p stop = sweep step g stop := by
  induction hn : g - p generalizing p with
  | zero => rw [show p = g by omega]
  | succ n ih =>
    rw [sweep_of_none (by omega) (hs p (Nat.le_refl _) (by omega))]
    exact ih (by omega) (fun i hi hi' => hs i (by omega) hi') (by omega)

theorem sweep_congr {α : Type} {step step' : Nat → Option (α × Nat)} {p stop : Nat}
    (h : ∀ i, p ≤ i → i < stop → step i = step' i) : sweep step p stop = sweep step' p stop := by
  fun_induction sweep step p stop with
  | case1 p hp hs ih =>
    rw [sweep_of_none hp ((h p (Nat.le_refl p) hp).symm.trans hs)]
    exact ih fun i hi => h i (by omega)
  | case2 p hp found next hs ih =>
    rw [Text.sweep_of_some hp ((h p (Nat.le_refl p) hp).symm.trans hs),
      ih fun i hi => h i (by omega)]
  | case3 p hp => rw [sweep_of_le (by omega)]

namespace Places

variable {α : Type} {step : Nat → Option (α × Nat)} {first last : α → Nat}

theorem sweep_of_some (h : Places step first last) {p stop next : Nat} {x : α} (hp : p < stop)
    (hs : step p = some (x, next)) : sweep step p stop = x :: sweep step next stop := by
  have hlt := h.lt hs
  rw [Text.sweep_of_some hp hs, Nat.max_eq_left (by omega)]

theorem mem_sweep (h : Places step first last) {a stop : Nat} {x : α} (hx : x ∈ sweep step a stop) :
    a ≤ first x ∧ first x < stop ∧ step (first x) = some (x, last x) := by
  fun_induction sweep step a stop with
  | case1 p hp hs ih =>
    obtain ⟨hl, hu, hf⟩ := ih hx
    exact ⟨by omega, hu, hf⟩
  | case2 p hp found next hs ih =>
    rcases List.mem_cons.1 hx with rfl | hx
    · rw [h.first_eq hs, h.last_eq hs]
      exact ⟨Nat.le_refl _, hp, hs⟩
    · obtain ⟨hl, hu, hf⟩ := ih hx
      exact ⟨by omega, hu, hf⟩
  | case3 => simp at hx

theorem first_lt_last (h : Places step first last) {a stop : Nat} {x : α}
    (hx : x ∈ sweep step a stop) :
    first x < last x := h.lt (h.mem_sweep hx).2.2

theorem pairwise_sweep (h : Places step first last) (a stop : Nat) :
    (sweep step a stop).Pairwise fun x y => last x ≤ first y := by
  fun_induction sweep step a stop with
  | case1 p hp hs ih => exact ih
  | case2 p hp found next hs ih =>
    refine List.pairwise_cons.2 ⟨fun y hy => ?_, ih⟩
    have hy := (h.mem_sweep hy).1
    rw [h.last_eq hs]
    omega
  | case3 => exact List.Pairwise.nil

theorem exists_mem_sweep (h : Places step first last) {a stop p : Nat} (hap : a ≤ p) (hp : p < stop)
    (hs : step p ≠ none) : ∃ x ∈ sweep step a stop, first x ≤ p ∧ p < last x := by
  fun_induction sweep step a stop with
  | case1 q hq hn ih =>
    have hne : q ≠ p := fun he => hs (he ▸ hn)
    exact ih (by omega)
  | case2 q hq found next hn ih =>
    have hf := h.first_eq hn
    have hl := h.last_eq hn
    by_cases hlt : p < next
    · exact ⟨found, List.mem_cons_self .., by omega, by omega⟩
    · have hlt' := h.lt hn
      obtain ⟨x, hx, hin⟩ := ih (by omega)
      exact ⟨x, List.mem_cons_of_mem _ hx, hin⟩
  | case3 => omega

theorem sweep_eq_filter_lt (h : Places step first last) {a e stop : Nat} (he : e ≤ stop) :
    sweep step a e = (sweep step a stop).filter (first · < e) := by
  fun_induction sweep step a stop with
  | case1 p hp hs ih =>
    by_cases hpe : p < e
    · rw [sweep_of_none hpe hs]
      exact ih
    · rw [← ih, sweep_of_le (by omega), sweep_of_le (by omega)]
  | case2 p hp found next hs ih =>
    have hf := h.first_eq hs
    by_cases hpe : p < e
    · have hlt := h.lt hs
      rw [Nat.max_eq_left (by omega)] at ih ⊢
      rw [h.sweep_of_some hpe hs, ih, List.filter_cons_of_pos (by simp [hf, hpe])]
    · rw [List.filter_cons_of_neg (by simp [hf]; omega), ← ih, sweep_of_le (by omega),
        sweep_of_le (by omega)]
  | case3 p hp =>
    rw [sweep_of_le (by omega)]
    rfl

theorem sweep_eq_filter_ge (h : Places step first last) {a s stop : Nat} (has : a ≤ s)
    (hs : ∀ x ∈ sweep step a stop, first x < s → last x ≤ s) :
    sweep step s stop = (sweep step a stop).filter (s ≤ first ·) := by
  have whole :
      ∀ p, s ≤ p → (sweep step p stop).filter (s ≤ first ·) = sweep step p stop := fun p hp =>
    List.filter_eq_self.2 fun x hx => by have := (h.mem_sweep hx).1; simp; omega
  by_cases hsa : s ≤ a
  · rw [whole a hsa, Nat.le_antisymm hsa has]
  -- reading from `a` reaches `s` itself, at a place without a find or at the end of one
  fun_induction sweep step a stop with
  | case1 p hp hn ih =>
    by_cases hps : s ≤ p + 1
    · rw [whole _ hps, show s = p + 1 by omega]
    · exact ih (by omega) hs hps
  | case2 p hp found next hn ih =>
    have hf := h.first_eq hn
    have hl := h.last_eq hn
    have hlt := h.lt hn
    have hnext : next ≤ s := by have := hs found (List.mem_cons_self ..); omega
    rw [List.filter_cons_of_neg (by simp [hf]; omega)]
    rw [Nat.max_eq_left (by omega)] at hs ih ⊢
    by_cases hsn : s ≤ next
    · rw [whole _ hsn, Nat.le_antisymm hsn hnext]
    · exact ih hnext (fun x hx => hs x (List.mem_cons_of_mem _ hx)) hsn
  | case3 p hp =>
    rw [sweep_of_le (by omega)]
    rfl

theorem sweep_eq_filter (h : Places step first last) {a s e stop : Nat}
    (has : a ≤ s) (he : e ≤ stop) (hs : ∀ x ∈ sweep step a stop, first x < s → last x ≤ s) :
    sweep step s e = (sweep step a stop).filter fun x => s ≤ first x && first x < e := by
  rw [h.sweep_eq_filter_lt he, h.sweep_eq_filter_ge has hs, List.filter_filter]
  exact List.filter_congr fun x _ => Bool.and_comm _ _

end Places

end OrsonHighlight.Text
