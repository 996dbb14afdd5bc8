import Mathlib.Data.List.Sort

/-!
Longest stretches of offsets that carry one mark. Two that meet are one, every mark lies on one, and
two markings have the same stretches exactly when they agree on the class of each offset and on
which neighbours go together.
-/

set_option autoImplicit false

namespace OrsonHighlight

theorem eq_of_mem_iff_of_ascending {α : Type} {key : α → Int} {xs ys : List α}
    (hx : xs.Pairwise fun x y => key x < key y) (hy : ys.Pairwise fun x y => key x < key y)
    (h : ∀ x, x ∈ xs ↔ x ∈ ys) : xs = ys := by
  have : Std.Irrefl fun x y : α => key x < key y := ⟨fun x => Int.lt_irrefl (key x)⟩
  have : Std.Antisymm fun x y : α => key x < key y :=
    ⟨fun x y hxy hyx => absurd hyx (Int.lt_asymm hxy)⟩
  exact hx.eq_of_mem_iff hy h

theorem eq_of_covers_of_pairwise {α : Type} {first last : α → Int} {xs : List α}
    (h : xs.Pairwise fun x y => last x ≤ first y) {x y : α} (hx : x ∈ xs) (hy : y ∈ xs) {o : Int}
    (hxo : first x ≤ o ∧ o < last x) (hyo : first y ≤ o ∧ o < last y) : x = y := by
  induction xs with
  | nil => simp at hx
  | cons z rest ih =>
    obtain ⟨hz, h⟩ := List.pairwise_cons.1 h
    rcases List.mem_cons.1 hx with hxz | hxr <;> rcases List.mem_cons.1 hy with hyz | hyr
    · rw [hxz, hyz]
    · have hle := hz y hyr
      rw [hxz] at hxo
      omega
    · have hle := hz x hxr
      rw [hyz] at hyo
      omega
    · exact ih h hxr hyr

/-- A longest stretch from `x` up to `y` on which every offset has the mark `k`. -/
structure IsRun {κ : Type} (f : Int → Option κ) (k : κ) (x y : Int) : Prop where
  lt : x < y
  mark : ∀ o, x ≤ o → o < y → f o = some k
  left : f (x - 1) ≠ some k
  right : f y ≠ some k

namespace IsRun

variable {κ lab : Type} {f : Int → Option κ} {k : κ} {x y : Int}

theorem congr {g : Int → Option lab} {l : lab} (h : ∀ o, f o = some k ↔ g o = some l) :
    IsRun f k x y ↔ IsRun g l x y :=
  ⟨fun r => ⟨r.lt, fun o hx hy => (h o).1 (r.mark o hx hy), fun hg => r.left ((h _).2 hg),
      fun hg => r.right ((h _).2 hg)⟩,
    fun r => ⟨r.lt, fun o hx hy => (h o).2 (r.mark o hx hy), fun hf => r.left ((h _).1 hf),
      fun hf => r.right ((h _).1 hf)⟩⟩

theorem eq_of_mem {k' : κ} {x' y' o : Int} (h : IsRun f k x y) (h' : IsRun f k' x' y') (hx : x ≤ o)
    (hy : o < y) (hx' : x' ≤ o) (hy' : o < y') : k = k' ∧ x = x' ∧ y = y' := by
  have hk : k = k' := Option.some.inj ((h.mark o hx hy).symm.trans (h'.mark o hx' hy'))
  subst hk
  refine ⟨rfl, ?_, ?_⟩
  · by_contra hne
    rcases Int.lt_or_gt_of_ne hne with hlt | hlt
    · exact h'.left (h.mark _ (by omega) (by omega))
    · exact h.left (h'.mark _ (by omega) (by omega))
  · by_contra hne
    rcases Int.lt_or_gt_of_ne hne with hlt | hlt
    · exact h.right (h'.mark _ (by omega) (by omega))
    · exact h'.right (h.mark _ (by omega) (by omega))

theorem not_mem_of_none {o : Int} (h : IsRun f k x y) (ho : f o = none) : o < x ∨ y ≤ o := by
  by_contra hin
  simp [h.mark o (by omega) (by omega)] at ho

def Bounded (f : Int → Option κ) (a b : Int) : Prop := ∀ o, f o ≠ none → a ≤ o ∧ o < b

theorem bounds {a b : Int} (hb : Bounded f a b) (h : IsRun f k x y) : a ≤ x ∧ x < y ∧ y ≤ b := by
  have hlt := h.lt
  have hx := hb x (by simp [h.mark x (Int.le_refl x) hlt])
  have hy := hb (y - 1) (by simp [h.mark (y - 1) (by omega) (by omega)])
  omega

theorem exists_left {a b o : Int} (hb : Bounded f a b) (ho : f o = some k) :
    ∃ x, x ≤ o ∧ (∀ i, x ≤ i → i ≤ o → f i = some k) ∧ f (x - 1) ≠ some k := by
  induction hn : (o - a).toNat generalizing o with
  | zero =>
    have hao := (hb o (by simp [ho])).1
    refine ⟨o, Int.le_refl _,
      fun i hi hi' => by rw [Int.le_antisymm hi' hi]; exact ho, fun hf => ?_⟩
    have hlow := (hb (o - 1) (by simp [hf])).1
    omega
  | succ n ih =>
    by_cases hf : f (o - 1) = some k
    · obtain ⟨x, hx, hm, hl⟩ := ih hf (by omega)
      refine ⟨x, by omega, fun i hi hi' => ?_, hl⟩
      by_cases hio : i = o
      · rw [hio]; exact ho
      · exact hm i hi (by omega)
    · exact ⟨o, Int.le_refl _, fun i hi hi' => by rw [Int.le_antisymm hi' hi]; exact ho, hf⟩

theorem exists_right {a b o : Int} (hb : Bounded f a b) (ho : f o = some k) :
    ∃ y, o < y ∧ (∀ i, o ≤ i → i < y → f i = some k) ∧ f y ≠ some k := by
  induction hn : (b - o).toNat generalizing o with
  | zero =>
    have hob := (hb o (by simp [ho])).2
    omega
  | succ n ih =>
    by_cases hf : f (o + 1) = some k
    · obtain ⟨y, hy, hm, hr⟩ := ih hf (by omega)
      refine ⟨y, by omega, fun i hi hi' => ?_, hr⟩
      by_cases hio : i = o
      · rw [hio]; exact ho
      · exact hm i (by omega) hi'
    · exact ⟨o + 1, by omega, fun i hi hi' => by rw [show i = o by omega]; exact ho, hf⟩

theorem exists_mem {a b o : Int} (hb : Bounded f a b) (ho : f o = some k) :
    ∃ x y, IsRun f k x y ∧ x ≤ o ∧ o < y := by
  obtain ⟨x, hxo, hl, hleft⟩ := exists_left hb ho
  obtain ⟨y, hoy, hr, hright⟩ := exists_right hb ho
  refine ⟨x, y, ⟨by omega, fun i hx hy => ?_, hleft, hright⟩, hxo, hoy⟩
  by_cases hio : i ≤ o
  · exact hl i hx hio
  · exact hr i (by omega) hy

def mask (V : Int → Bool) (f : Int → Option κ) (o : Int) : Option κ := if V o then f o else none

theorem mask_eq_some {V : Int → Bool} {o : Int} :
    mask V f o = some k ↔ V o = true ∧ f o = some k := by
  unfold mask; split <;> simp_all

def within (x y o : Int) : Option Unit := if x ≤ o ∧ o < y then some () else none

theorem within_eq_some {x y o : Int} : within x y o = some () ↔ x ≤ o ∧ o < y := by
  unfold within; split <;> simp_all

theorem mask_iff {V : Int → Bool} {a b : Int} (hb : Bounded f a b) :
    IsRun (mask V f) k x y ↔ ∃ x' y', IsRun f k x' y' ∧ IsRun (mask V (within x' y')) () x y := by
  constructor
  · intro h
    obtain ⟨x', y', hr, hx, hy⟩ := exists_mem hb (mask_eq_some.1 (h.mark x (Int.le_refl _) h.lt)).2
    have hyy : y ≤ y' := by
      by_contra hlt
      exact hr.right (mask_eq_some.1 (h.mark y' (by omega) (by omega))).2
    refine ⟨x', y', hr, h.lt, fun o ho ho' => ?_, fun hl => ?_, fun hl => ?_⟩
    · exact mask_eq_some.2 ⟨(mask_eq_some.1 (h.mark o ho ho')).1,
        within_eq_some.2 ⟨by omega, by omega⟩⟩
    · obtain ⟨hv, hw⟩ := mask_eq_some.1 hl
      have hw := within_eq_some.1 hw
      exact h.left (mask_eq_some.2 ⟨hv, hr.mark _ hw.1 hw.2⟩)
    · obtain ⟨hv, hw⟩ := mask_eq_some.1 hl
      have hw := within_eq_some.1 hw
      exact h.right (mask_eq_some.2 ⟨hv, hr.mark _ hw.1 hw.2⟩)
  · rintro ⟨x', y', hr, h⟩
    have inside : ∀ o, x ≤ o → o < y → V o = true ∧ x' ≤ o ∧ o < y' := fun o ho ho' => by
      obtain ⟨hv, hw⟩ := mask_eq_some.1 (h.mark o ho ho')
      exact ⟨hv, within_eq_some.1 hw⟩
    have hx := inside x (Int.le_refl _) h.lt
    have hy := inside (y - 1) (by have := h.lt; omega) (by omega)
    refine ⟨h.lt, fun o ho ho' => ?_, fun hl => ?_, fun hl => ?_⟩
    · obtain ⟨hv, hw⟩ := inside o ho ho'
      exact mask_eq_some.2 ⟨hv, hr.mark o hw.1 hw.2⟩
    · obtain ⟨hv, hf⟩ := mask_eq_some.1 hl
      by_cases hxx : x' ≤ x - 1
      · exact h.left (mask_eq_some.2 ⟨hv, within_eq_some.2 ⟨hxx, by omega⟩⟩)
      · exact hr.left (by rw [show x' = x by omega]; exact hf)
    · obtain ⟨hv, hf⟩ := mask_eq_some.1 hl
      by_cases hyy : y < y'
      · exact h.right (mask_eq_some.2 ⟨hv, within_eq_some.2 ⟨by omega, hyy⟩⟩)
      · exact hr.right (by rw [show y' = y by omega]; exact hf)

theorem of_eq_on {g : Int → Option κ} (h : IsRun f k x y)
    (hfg : ∀ o, x - 1 ≤ o → o ≤ y → g o = f o) :
    IsRun g k x y where
  lt := h.lt
  mark o hx hy := by rw [hfg o (by omega) (by omega)]; exact h.mark o hx hy
  left := by rw [hfg (x - 1) (by omega) (by have := h.lt; omega)]; exact h.left
  right := by rw [hfg y (by have := h.lt; omega) (by omega)]; exact h.right

theorem within_iff {a b : Int} : IsRun (within a b) () x y ↔ x = a ∧ y = b ∧ a < b := by
  have isRun : a < b → IsRun (within a b) () a b := fun hab =>
    ⟨hab, fun o hx hy => within_eq_some.2 ⟨hx, hy⟩, fun hl => by have := within_eq_some.1 hl; omega,
      fun hr => by have := within_eq_some.1 hr; omega⟩
  constructor
  · intro h
    have hx := within_eq_some.1 (h.mark x (Int.le_refl x) h.lt)
    obtain ⟨-, h1, h2⟩ := h.eq_of_mem (isRun (by omega)) (Int.le_refl x) h.lt hx.1 hx.2
    exact ⟨h1, h2, by omega⟩
  · rintro ⟨rfl, rfl, hlt⟩
    exact isRun hlt

theorem mask_within_of_all {V : Int → Bool} {a b : Int} (hV : ∀ o, a ≤ o → o < b → V o = true) :
    mask V (within a b) = within a b := by
  funext o
  refine Option.ext fun u => ?_
  rw [mask_eq_some, within_eq_some]
  exact ⟨fun h => h.2, fun h => ⟨hV o h.1 h.2, h⟩⟩

theorem mask_within_of_gap {V : Int → Bool} {a b g : Int} (hag : a ≤ g) (hgb : g < b)
    (hV : ∀ o, a ≤ o → o < g → V o = true) (hg : V g = false) :
    IsRun (mask V (within a b)) () x y ↔ (a < g ∧ x = a ∧ y = g) ∨
      IsRun (mask V (within (g + 1) b)) () x y := by
  have inside : ∀ {o}, mask V (within a b) o = some () ↔ V o = true ∧ a ≤ o ∧ o < b := fun {o} => by
    rw [mask_eq_some, within_eq_some]
  have later : ∀ o, g ≤ o → mask V (within a b) o = mask V (within (g + 1) b) o := fun o ho => by
    refine Option.ext fun u => ?_
    rw [inside, mask_eq_some, within_eq_some]
    by_cases hog : o = g
    · simp [hog, hg]
    · constructor
      · exact fun h => ⟨h.1, by omega, h.2.2⟩
      · exact fun h => ⟨h.1, by omega, h.2.2⟩
  have first : a < g → IsRun (mask V (within a b)) () a g := fun hlt =>
    ⟨hlt, fun o ho ho' => inside.2 ⟨hV o ho ho', ho, by omega⟩,
      fun hl => by have := (inside.1 hl).2; omega, fun hr => by simp [(inside.1 hr).1] at hg⟩
  constructor
  · intro hr
    have hx := inside.1 (hr.mark x (Int.le_refl x) hr.lt)
    rcases Int.lt_trichotomy x g with hxg | rfl | hxg
    · obtain ⟨-, h1, h2⟩ := hr.eq_of_mem (first (by omega)) (Int.le_refl x) hr.lt hx.2.1 hxg
      exact .inl ⟨by omega, h1, h2⟩
    · simp [hx.1] at hg
    · exact .inr (hr.of_eq_on fun o ho _ => (later o (by omega)).symm)
  · rintro (⟨hlt, rfl, rfl⟩ | hr)
    · exact first hlt
    · have hx := within_eq_some.1 (mask_eq_some.1 (hr.mark x (Int.le_refl x) hr.lt)).2
      exact hr.of_eq_on fun o ho _ => later o (by omega)

def between (lo hi o : Int) : Bool := lo ≤ o && o < hi

theorem mask_between_within (lo hi a b : Int) :
    mask (between lo hi) (within a b) = within (max a lo) (min b hi) := by
  funext o
  refine Option.ext fun u => ?_
  rw [mask_eq_some, within_eq_some, within_eq_some]
  simp only [between, Bool.and_eq_true, decide_eq_true_eq]
  omega

theorem bounded_within (a b : Int) : Bounded (within a b) a b := fun o ho => by
  unfold within at ho
  split at ho
  · assumption
  · exact absurd rfl ho

theorem Bounded.mask {a b : Int} (hb : Bounded f a b) (V : Int → Bool) :
    Bounded (mask V f) a b := by
  intro o ho
  unfold IsRun.mask at ho
  split at ho
  · exact hb o ho
  · exact absurd rfl ho

def Joined (f : Int → Option κ) (o : Int) : Prop := ∃ k, f o = some k ∧ f (o + 1) = some k

section Labels

variable {label : κ → lab} {g : Int → Option κ} {a b a' b' : Int}

/-- Labels and joins alone tell where the runs are. -/
theorem of_same_labels (h : ∀ o, (f o).map label = (g o).map label ∧ (Joined f o ↔ Joined g o))
    (hr : IsRun f k x y) : ∃ k', label k' = label k ∧ IsRun g k' x y := by
  have hlt := hr.lt
  have hx := (h x).1
  rw [hr.mark x (Int.le_refl x) hlt, Option.map_some, eq_comm, Option.map_eq_some_iff] at hx
  obtain ⟨k', hk', hlabel⟩ := hx
  -- each join of `f` is one of `g`, so the mark of `g` at `x` lasts as long as that of `f`
  have mark : ∀ n : Nat, x + n < y → g (x + n) = some k' := by
    intro n
    induction n with
    | zero => intro; simpa using hk'
    | succ n ih =>
      intro hn
      have hjoin : Joined f (x + n) :=
        ⟨k, hr.mark _ (by omega) (by omega), hr.mark _ (by omega) (by omega)⟩
      obtain ⟨j, hj, hj'⟩ := (h _).2.1 hjoin
      rw [ih (by omega), Option.some.injEq] at hj
      rw [show x + ((n + 1 : Nat) : Int) = x + n + 1 by omega, hj', ← hj]
  have markAt : ∀ o, x ≤ o → o < y → g o = some k' := fun o hxo hoy => by
    have hm := mark (o - x).toNat (by omega)
    rwa [show x + ((o - x).toNat : Int) = o by omega] at hm
  refine ⟨k', hlabel, hlt, markAt, fun hleft => ?_, fun hright => ?_⟩
  · have hjoin : Joined g (x - 1) := ⟨k', hleft, by rw [show x - 1 + 1 = x by omega]; exact hk'⟩
    obtain ⟨j, hj, hj'⟩ := (h _).2.2 hjoin
    rw [show x - 1 + 1 = x by omega, hr.mark x (Int.le_refl x) hlt] at hj'
    exact hr.left (by rw [hj, ← hj'])
  · have hjoin : Joined g (y - 1) :=
      ⟨k', markAt _ (by omega) (by omega), by rw [show y - 1 + 1 = y by omega]; exact hright⟩
    obtain ⟨j, hj, hj'⟩ := (h _).2.2 hjoin
    rw [hr.mark (y - 1) (by omega) (by omega)] at hj
    rw [show y - 1 + 1 = y by omega] at hj'
    exact hr.right (by rw [hj', ← hj])

theorem labels_of_runs (hf : Bounded f a b)
    (h : ∀ k x y, IsRun f k x y → ∃ k', label k' = label k ∧ IsRun g k' x y) (o : Int) :
    (∀ l, (f o).map label = some l → (g o).map label = some l) ∧ (Joined f o → Joined g o) := by
  constructor
  · intro l hl
    obtain ⟨k, hk, rfl⟩ := Option.map_eq_some_iff.1 hl
    obtain ⟨x, y, hr, hx, hy⟩ := exists_mem hf hk
    obtain ⟨k', hlabel, hr'⟩ := h k x y hr
    rw [hr'.mark o hx hy, Option.map_some, hlabel]
  · rintro ⟨k, hk, hk'⟩
    obtain ⟨x, y, hr, hx, hy⟩ := exists_mem hf hk
    have hy' : o + 1 < y := by
      by_contra hge
      exact hr.right (by rw [show y = o + 1 by omega]; exact hk')
    obtain ⟨j, -, hr'⟩ := h k x y hr
    exact ⟨j, hr'.mark o hx hy, hr'.mark (o + 1) (by omega) hy'⟩

theorem same_runs_iff (hf : Bounded f a b) (hg : Bounded g a' b') :
    (∀ l x y, (∃ k, label k = l ∧ IsRun f k x y) ↔ ∃ k, label k = l ∧ IsRun g k x y) ↔
      ∀ o, (f o).map label = (g o).map label ∧ (Joined f o ↔ Joined g o) := by
  constructor
  · intro h o
    obtain ⟨hl, hj⟩ := labels_of_runs hf (fun k x y hr => (h (label k) x y).1 ⟨k, rfl, hr⟩) o
    obtain ⟨hl', hj'⟩ := labels_of_runs hg (fun k x y hr => (h (label k) x y).2 ⟨k, rfl, hr⟩) o
    exact ⟨Option.ext fun l => ⟨hl l, hl' l⟩, hj, hj'⟩
  · intro h l x y
    constructor
    · rintro ⟨k, rfl, hr⟩
      exact of_same_labels h hr
    · rintro ⟨k, rfl, hr⟩
      exact of_same_labels (fun o => ⟨(h o).1.symm, (h o).2.symm⟩) hr

theorem map_mask_eq_iff {V : Int → Bool} (hf : Bounded f a b) {o : Int} :
    (mask V f o).map label = (mask (between a b) (mask V g) o).map label ↔
      (a ≤ o → o < b → V o = true → (f o).map label = (g o).map label) := by
  by_cases hin : a ≤ o ∧ o < b
  · cases hV : V o <;> simp [mask, between, hin, hV]
  · have hnone : f o = none := by
      by_contra hne
      exact hin (hf o hne)
    have hout : between a b o = false := by
      simp only [between, Bool.and_eq_false_iff, decide_eq_false_iff_not]
      omega
    constructor
    · exact fun _ hl hu => absurd ⟨hl, hu⟩ hin
    · simp [mask, hnone, hout]

theorem joined_mask {V : Int → Bool} {o : Int} :
    Joined (mask V f) o ↔ V o = true ∧ V (o + 1) = true ∧ Joined f o := by
  simp only [Joined, mask_eq_some]
  constructor
  · rintro ⟨k, ⟨hv, hk⟩, hv', hk'⟩
    exact ⟨hv, hv', k, hk, hk'⟩
  · rintro ⟨hv, hv', k, hk, hk'⟩
    exact ⟨k, ⟨hv, hk⟩, hv', hk'⟩

theorem joined_mask_iff {V : Int → Bool} (hf : Bounded f a b) {o : Int} :
    (Joined (mask V f) o ↔ Joined (mask (between a b) (mask V g)) o) ↔
      (a ≤ o → o + 1 < b → V o = true → V (o + 1) = true → (Joined f o ↔ Joined g o)) := by
  have hin : Joined f o → a ≤ o ∧ o + 1 < b := fun ⟨k, hk, hk'⟩ => by
    have ho := hf o (by simp [hk])
    have ho' := hf (o + 1) (by simp [hk'])
    omega
  simp only [joined_mask, between, Bool.and_eq_true, decide_eq_true_eq]
  constructor
  · intro h hl hu hv hv'
    constructor
    · exact fun hj => (h.1 ⟨hv, hv', hj⟩).2.2.2.2
    · exact fun hj => (h.2 ⟨⟨hl, by omega⟩, ⟨by omega, hu⟩, hv, hv', hj⟩).2.2
  · intro h
    constructor
    · rintro ⟨hv, hv', hj⟩
      obtain ⟨hl, hu⟩ := hin hj
      exact ⟨⟨hl, by omega⟩, ⟨by omega, hu⟩, hv, hv', (h hl hu hv hv').1 hj⟩
    · rintro ⟨⟨hl, -⟩, ⟨-, hu⟩, hv, hv', hj⟩
      exact ⟨hv, hv', (h hl hu hv hv').2 hj⟩

end Labels

end IsRun

end OrsonHighlight
