import OrsonHighlight.Proofs.Compositing

/-!
Readings of one text over two ranges, the one within the other. Where the inner range begins inside
no match, region or broken literal of the outer one, they show the same, and where it ends makes no
difference.
-/

set_option autoImplicit false

namespace OrsonHighlight

/-- Spans that are left out or cut short elsewhere make no difference to what shows at an offset. -/
theorem Span.map_key_lastOver_filter {α : Type} {f g : α → Span} {keep : α → Bool}
    {xs : List α} {o : Int} (hkeep : ∀ x ∈ xs, (g x).covers o = true → keep x = true)
    (hfg : ∀ x ∈ xs, (f x).covers o = (g x).covers o ∧ (f x).key = (g x).key) :
    (lastOver ((xs.filter keep).map f) o).map key = (lastOver (xs.map g) o).map key := by
  induction xs with
  | nil => rfl
  | cons x rest ih =>
    have ih := ih (fun y hy => hkeep y (List.mem_cons_of_mem x hy))
      fun y hy => hfg y (List.mem_cons_of_mem x hy)
    obtain ⟨hcov, hkey⟩ := hfg x (List.mem_cons_self ..)
    have hx := hkeep x (List.mem_cons_self ..)
    cases hk : keep x with
    | true =>
      rw [List.filter_cons_of_pos hk]
      simp only [List.map_cons, lastOver, Option.map_or, ih, hcov]
      cases (g x).covers o <;> simp [hkey]
    | false =>
      have hg : (g x).covers o = false := by
        cases hgx : (g x).covers o with
        | false => rfl
        | true => exact absurd (hx hgx) (by simp [hk])
      rw [List.filter_cons_of_neg (by simp [hk])]
      simp [lastOver, ih, hg]

theorem Span.map_key_lastOver_flatMap {α : Type} {f g : α → List Span} {xs : List α} {o : Int}
    (h : ∀ x ∈ xs, (lastOver (f x) o).map key = (lastOver (g x) o).map key) :
    (lastOver (xs.flatMap f) o).map key = (lastOver (xs.flatMap g) o).map key := by
  induction xs with
  | nil => rfl
  | cons x rest ih =>
    rw [List.flatMap_cons, List.flatMap_cons, lastOver_append, lastOver_append,
      Option.map_or, Option.map_or, ih fun y hy => h y (List.mem_cons_of_mem x hy),
      h x (List.mem_cons_self ..)]

theorem Pattern.hits_eq_filter {pat : Pattern} {t : Text} {a b s e : Nat} (has : a ≤ s) (he : e ≤ b)
    (hs : ∀ m ∈ pat.hits t a b, m.1 < s → m.2 ≤ s) :
    pat.hits t s e = (pat.hits t a b).filter fun m => s ≤ m.1 && m.1 < e := by
  have hplaces := pat.places_step t
  unfold hits at *
  rw [hplaces.sweep_eq_filter has (show min e t.size ≤ min b t.size by omega) hs]
  refine List.filter_congr fun m hm => ?_
  have hmt := (hplaces.mem_sweep hm).2.1
  rw [Bool.eq_iff_iff]
  simp
  omega

namespace Conventions

variable {c : Conventions} {t : Text}

theorem regions_eq_filter (hc : c.Advances) {a b s e : Nat} (has : a ≤ s) (he : e ≤ b)
    (hs : ∀ x ∈ c.openings t a b, x.first < s → x.last ≤ s) :
    c.regions t s e =
      (c.regions t a b).filter fun r => (s : Int) ≤ r.opening && r.opening < (e : Int) := by
  unfold regions openings at *
  rw [(places_openAt hc t).sweep_eq_filter has he hs, List.filter_filterMap, List.filterMap_filter]
  refine List.filterMap_congr fun x hx => ?_
  cases x with
  | broken => simp [Opening.region?]
  | region r =>
    have hopen := (bounds_of_mem hc (mem_regions.2 hx)).1
    have hs : (s ≤ r.opening.toNat) ↔ (s : Int) ≤ r.opening := by omega
    have he : (r.opening.toNat < e) ↔ r.opening < (e : Int) := by omega
    simp [Opening.region?, Opening.first, Option.filter, hs, he]

end Conventions

namespace Classification

variable {tables : List CompiledTable} {c : Conventions} {t : Text} {a b : Nat}

/-- No match, region or broken literal of the range from `a` up to `b` lies on both sides of `s`. -/
structure SplitsAt (tables : List CompiledTable) (c : Conventions) (t : Text) (a b s : Nat) :
    Prop where
  hits : ∀ T ∈ tables, ∀ m ∈ T.pattern.hits t a b, m.1 < s → m.2 ≤ s
  openings : ∀ x ∈ c.openings t a b, x.first < s → x.last ≤ s

theorem map_key_lastOver_scan {T : CompiledTable} {s e : Nat} (has : a ≤ s) (he : e ≤ b)
    (hs : ∀ m ∈ T.pattern.hits t a b, m.1 < s → m.2 ≤ s) {o : Int} (hso : s ≤ o) (hoe : o < e) :
    (Span.lastOver (T.scan t s e) o).map Span.key =
      (Span.lastOver (T.scan t a b) o).map Span.key := by
  simp only [CompiledTable.scan, Int.toNat_natCast, Pattern.hits_eq_filter has he hs]
  refine Span.map_key_lastOver_filter (fun m hm hcov => ?_) fun m _ => ⟨?_, rfl⟩
  · have hin := Span.covers_iff.1 hcov
    have hm := hs m hm
    dsimp only at hin
    simp
    omega
  · rw [Bool.eq_iff_iff, Span.covers_iff, Span.covers_iff]
    dsimp only
    omega

theorem showing_of_splitsAt (hc : c.Advances) {s e : Nat} (has : a ≤ s) (he : e ≤ b)
    (hs : SplitsAt tables c t a b s) {o : Int} (hso : s ≤ o) (hoe : o < e) :
    showing tables c t s e o = showing tables c t a b o := by
  have htables : (Span.lastOver (tables.flatMap (·.scan t s e)) o).map Span.key =
      (Span.lastOver (tables.flatMap (·.scan t a b)) o).map Span.key :=
    Span.map_key_lastOver_flatMap fun T hT => map_key_lastOver_scan has he (hs.hits T hT) hso hoe
  have hregions : (Span.lastOver ((c.regions t s e).map (·.span)) o).map Span.key =
      (Span.lastOver ((c.regions t a b).map (·.span)) o).map Span.key := by
    rw [Conventions.regions_eq_filter hc has he hs.openings]
    refine Span.map_key_lastOver_filter (fun r hr hcov => ?_) fun r _ => ⟨rfl, rfl⟩
    have hin := span_covers_iff.1 hcov
    have hb := Conventions.bounds_of_mem hc hr
    have hsplit := hs.openings _ (Conventions.mem_regions.1 hr)
    simp only [Opening.first, Opening.last] at hsplit
    simp
    omega
  unfold showing Annotations.shown
  rw [if_pos ⟨hso, hoe⟩, if_pos ⟨by omega, by omega⟩, paints, paints, Span.lastOver_append,
    Span.lastOver_append, Option.map_or, Option.map_or, htables, hregions]

end Classification

def Mode.SplitsAt (m : Mode) (t : Text) (s : Nat) : Prop :=
  ∀ c, m.conventions? = some c → Classification.SplitsAt m.compiled c t 0 t.size s

end OrsonHighlight
