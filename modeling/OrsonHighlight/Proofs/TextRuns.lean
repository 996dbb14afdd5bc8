import OrsonHighlight.Lexeme.Pattern
import OrsonHighlight.Proofs.RegionGrammar
import OrsonHighlight.Proofs.Runs

set_option autoImplicit false

namespace OrsonHighlight

/-- What goes on with a name or with an operator; nothing else goes on with anything. -/
def Edge.joins : Edge → Option Edge
  | free => none
  | e => some e

theorem Edge.joins_eq_some {e k : Edge} : e.joins = some k ↔ e = k ∧ k ≠ .free := by
  cases e <;> cases k <;> simp [joins]

theorem isAlphanumeric_of_isSymbolChar {ch : Char} (h : isSymbolChar ch = true) :
    Unicode.isAlphanumeric ch = false := by
  have hall : (symbolChars.all fun ch => Unicode.isAlphanumeric ch == false) = true := by
    decide +kernel
  exact beq_iff_eq.1 (List.all_eq_true.1 hall ch (by simpa [isSymbolChar] using h))

theorem Edge.bars_iff {wordChars : List Char} {e : Edge} {ch : Char} (he : e ≠ .free) :
    e.bars wordChars ch = true ↔ Edge.ofChar wordChars ch = e := by
  unfold Edge.ofChar
  cases e with
  | word =>
    rw [bars]
    split
    · simp_all
    · split <;> simp_all
  | symbol =>
    rw [bars]
    by_cases hs : isSymbolChar ch = true
    · have ha := isAlphanumeric_of_isSymbolChar hs
      by_cases hw : ch ∈ wordChars <;> simp [isWordChar, ha, hs, hw]
    · by_cases hw : isWordChar wordChars ch = true <;> simp [hs, hw]
  | free => exact absurd rfl he

namespace Text

def kindAt (wordChars : List Char) (t : Text) (o : Int) : Option Edge :=
  if o < 0 then none else (t[o.toNat]?).bind fun ch => (Edge.ofChar wordChars ch).joins

def runFrom (wordChars : List Char) (t : Text) (p : Nat) : Option ((Nat × Nat) × Nat) :=
  (t.kindAt wordChars p).map fun k =>
    let q := (firstBetween (fun i => t.kindAt wordChars i != some k) p t.size).getD t.size
    ((p, q), q)

def runs (wordChars : List Char) (t : Text) : List (Nat × Nat) :=
  sweep (t.runFrom wordChars) 0 t.size

variable {wordChars : List Char} {t : Text}

theorem kindAt_natCast (o : Nat) :
    t.kindAt wordChars o = (t[o]?).bind fun ch => (Edge.ofChar wordChars ch).joins := by
  simp [kindAt]

theorem kindAt_eq_some {o : Nat} {k : Edge} :
    t.kindAt wordChars o = some k ↔ ∃ ch, t[o]? = some ch ∧
      Edge.ofChar wordChars ch = k ∧ k ≠ .free := by
  rw [kindAt_natCast, Option.bind_eq_some_iff]
  simp [Edge.joins_eq_some]

theorem bounded_kindAt (wordChars : List Char) (t : Text) :
    IsRun.Bounded (t.kindAt wordChars) 0 t.size := by
  intro o ho
  unfold kindAt at ho
  split at ho
  · simp at ho
  · refine ⟨by omega, ?_⟩
    by_contra hge
    rw [Array.getElem?_eq_none (by omega)] at ho
    simp at ho

theorem runFrom_eq_some {p next : Nat} {m : Nat × Nat} :
    t.runFrom wordChars p = some (m, next) ↔
      m = (p, next) ∧ p < next ∧
      ∃ k, (∀ o : Nat, p ≤ o → o < next → t.kindAt wordChars o = some k) ∧
        t.kindAt wordChars next ≠ some k := by
  simp only [runFrom, Option.map_eq_some_iff, Prod.mk.injEq]
  constructor
  · rintro ⟨k, hk, hm, hnext⟩
    have hps := (bounded_kindAt wordChars t p (by simp [hk])).2
    rw [hnext] at hm
    cases hf : firstBetween (fun i => t.kindAt wordChars i != some k) p t.size with
    | none =>
      rw [hf, Option.getD_none] at hnext
      subst hnext
      have hb := firstBetween_eq_none hf
      refine ⟨hm.symm, by omega, k, fun o ho ho' => by simpa using hb o ho ho', fun hend => ?_⟩
      have hlt := (bounded_kindAt wordChars t t.size (by simp [hend])).2
      omega
    | some q =>
      rw [hf, Option.getD_some] at hnext
      subst hnext
      obtain ⟨hpq, -, hq, hb⟩ := firstBetween_eq_some hf
      refine ⟨hm.symm, ?_, k, fun o ho ho' => by simpa using hb o ho ho', by simpa using hq⟩
      rcases Nat.lt_or_eq_of_le hpq with hlt | rfl
      · exact hlt
      · simp [hk] at hq
  · rintro ⟨hm, hlt, k, hmark, hend⟩
    have hk := hmark p (Nat.le_refl p) hlt
    have hlast :=
      (bounded_kindAt wordChars t (next - 1 : Nat)
        (by simp [hmark (next - 1) (by omega) (by omega)])).2
    have hget :
        (firstBetween (fun i => t.kindAt wordChars i != some k) p t.size).getD t.size = next := by
      rcases Nat.lt_or_eq_of_le (show next ≤ t.size by omega) with hns | rfl
      · rw [firstBetween_eq_some_iff.2 ⟨Nat.le_of_lt hlt, hns, by simpa using hend,
          fun j hj hj' => by simpa using hmark j hj hj'⟩]
        rfl
      · rw [firstBetween_eq_none_iff.2 fun j hj hj' => by simpa using hmark j hj hj']
        rfl
    exact ⟨k, hk, by rw [hget]; exact hm.symm, hget⟩

theorem places_runFrom (wordChars : List Char) (t : Text) :
    Places (t.runFrom wordChars) Prod.fst Prod.snd where
  first_eq {p next m} h := by rw [(runFrom_eq_some.1 h).1]
  last_eq {p next m} h := by rw [(runFrom_eq_some.1 h).1]
  lt {p next m} h := (runFrom_eq_some.1 h).2.1

theorem pairwise_runs (wordChars : List Char) (t : Text) :
    (t.runs wordChars).Pairwise fun m m' => m.2 ≤ m'.1 :=
  (places_runFrom wordChars t).pairwise_sweep 0 _

theorem eq_of_covers_runs (t : Text) {m m' : Nat × Nat} (hm : m ∈ t.runs wordChars)
    (hm' : m' ∈ t.runs wordChars) {o : Nat} (ho : m.1 ≤ o ∧ o < m.2) (ho' : m'.1 ≤ o ∧ o < m'.2) :
    m = m' := by
  have hpair : (t.runs wordChars).Pairwise fun m m' => (m.2 : Int) ≤ m'.1 :=
    (pairwise_runs wordChars t).imp fun h => Int.ofNat_le.2 h
  exact eq_of_covers_of_pairwise hpair hm hm' (o := o) (by omega) (by omega)

theorem mem_runs {p q : Nat} :
    (p, q) ∈ t.runs wordChars ↔ ∃ k, IsRun (t.kindAt wordChars) k p q := by
  have hplaces := places_runFrom wordChars t
  have cover : ∀ {o : Nat} {k : Edge}, t.kindAt wordChars o = some k →
      ∃ m ∈ t.runs wordChars, m.1 ≤ o ∧ o < m.2 := fun {o k} hk => by
    have hlt := (bounded_kindAt wordChars t o (by simp [hk])).2
    exact hplaces.exists_mem_sweep (Nat.zero_le o) (by omega) (by simp [runFrom, hk])
  have sound : ∀ {p q : Nat}, (p, q) ∈ t.runs wordChars →
      ∃ k, IsRun (t.kindAt wordChars) k p q := by
    intro p q hm
    obtain ⟨-, hlt, k, hmark, hend⟩ := runFrom_eq_some.1 (hplaces.mem_sweep hm).2.2
    refine ⟨k, by simpa using hlt, fun o ho ho' => ?_, fun hleft => ?_, hend⟩
    · rw [show o = ((o.toNat : Nat) : Int) by omega]
      exact hmark o.toNat (by omega) (by omega)
    · -- the run that covers the character before would have read on past `p`
      have hp : p ≠ 0 := by
        rintro rfl
        simp [kindAt] at hleft
      rw [show ((p : Nat) : Int) - 1 = ((p - 1 : Nat) : Int) by omega] at hleft
      obtain ⟨m', hm', hl, hu⟩ := cover hleft
      obtain ⟨-, -, k', hmark', hend'⟩ := runFrom_eq_some.1 (hplaces.mem_sweep hm').2.2
      have hkk : k' = k := Option.some.inj ((hmark' _ hl hu).symm.trans hleft)
      have hle : m'.2 ≤ p := by
        by_contra hgt
        have hsame := t.eq_of_covers_runs hm' hm (o := p) (by omega) ⟨Nat.le_refl p, hlt⟩
        rw [hsame] at hl
        simp only at hl
        omega
      rw [show m'.2 = p by omega, hkk] at hend'
      exact hend' (hmark p (Nat.le_refl _) hlt)
  constructor
  · exact sound
  · rintro ⟨k, hr⟩
    have hlt := hr.lt
    obtain ⟨m, hm, hl, hu⟩ := cover (hr.mark p (Int.le_refl _) hlt)
    obtain ⟨k', hr'⟩ := sound hm
    obtain ⟨-, h1, h2⟩ :=
      hr.eq_of_mem hr' (Int.le_refl _) hlt (by simpa using hl) (by simpa using hu)
    rwa [show p = m.1 by omega, show q = m.2 by omega]

end Text

end OrsonHighlight
