import OrsonHighlight.Lexeme.Pattern
import OrsonHighlight.Proofs.Paint
import OrsonHighlight.Proofs.Sweep

set_option autoImplicit false

namespace OrsonHighlight

namespace Text

variable {t : Text}

theorem mem_slice {a b : Nat} {ch : Char} :
    ch ∈ t.slice a b ↔ ∃ o, a ≤ o ∧ o < b ∧ t[o]? = some ch := by
  rw [slice, Array.mem_toList_iff, Array.mem_extract_iff_getElem]
  constructor
  · rintro ⟨k, hk, hget⟩
    exact ⟨a + k, by omega, by omega, by rw [← hget]; exact Array.getElem?_eq_getElem _⟩
  · rintro ⟨o, hao, hob, hget⟩
    obtain ⟨hlt, hget⟩ := Array.getElem?_eq_some_iff.1 hget
    refine ⟨o - a, by omega, ?_⟩
    simpa [show a + (o - a) = o by omega] using hget

theorem occursAt_iff_slice {p : Nat} {w : List Char} :
    t.occursAt p w = true ↔ t.slice p (p + w.length) = w := by
  induction w generalizing p with
  | nil => simp [slice]
  | cons c rest ih =>
    have hcut : ∀ ch, t[p]? = some ch →
        t.slice p (p + (rest.length + 1)) = ch :: t.slice (p + 1) (p + 1 + rest.length) := by
      intro ch hch
      obtain ⟨hlt, rfl⟩ := Array.getElem?_eq_some_iff.1 hch
      simp only [slice, Array.toList_extract, List.extract_eq_take_drop]
      rw [show p + (rest.length + 1) - p = rest.length + 1 by omega,
        show p + 1 + rest.length - (p + 1) = rest.length by omega,
        List.drop_eq_getElem_cons (by simpa using hlt), List.take_succ_cons, Array.getElem_toList]
    rw [occursAt_cons, Bool.and_eq_true, beq_iff_eq, ih, List.length_cons]
    cases hp : t[p]? with
    | none =>
      have hle : t.size ≤ p := by simpa using hp
      have hempty : t.slice p (p + (rest.length + 1)) = [] := by
        simp [slice]
        omega
      simp [hempty]
    | some ch => simp [hcut ch hp]

theorem bound_eq_toNat {n : Nat} {i : Int} (h0 : 0 ≤ i) (hn : i ≤ n) : bound n i = i.toNat := by
  unfold bound
  split <;> omega

end Text

theorem Span.mem_chars {s : Span} {t : Text} (h0 : 0 ≤ s.start) (hlt : s.start < s.stop)
    (hn : s.stop ≤ t.size)
    {ch : Char} : ch ∈ s.chars t ↔ ∃ o : Nat, s.start ≤ o ∧ o < s.stop ∧ t[o]? = some ch := by
  rw [chars, Text.cut, Text.bound_eq_toNat h0 (by omega),
    Text.bound_eq_toNat (by omega) hn, Text.mem_slice]
  constructor
  · rintro ⟨o, hl, hu, hget⟩
    exact ⟨o, by omega, by omega, hget⟩
  · rintro ⟨o, hl, hu, hget⟩
    exact ⟨o, by omega, by omega, hget⟩

namespace LexemeTable

theorem mem_insertLexeme {v w : String} {ws : List String} :
    v ∈ insertLexeme w ws ↔ v = w ∨ v ∈ ws := by
  induction ws with
  | nil => simp [insertLexeme]
  | cons u rest ih =>
    rw [insertLexeme]
    split
    · simp only [List.mem_cons, ih]
      tauto
    · simp

theorem mem_longestFirst {T : LexemeTable} {w : String} : w ∈ T.longestFirst ↔ w ∈ T.lexemes := by
  unfold longestFirst
  induction T.lexemes with
  | nil => simp
  | cons u rest ih => rw [List.foldr_cons, mem_insertLexeme, ih, List.mem_cons]

theorem mem_alternatives {T : LexemeTable} {wordChars : String} {g : GuardedLexeme} :
    g ∈ (T.pattern wordChars).alternatives ↔
      ∃ w ∈ T.lexemes, GuardedLexeme.ofWord? wordChars.toList w = some g := by
  simp [pattern, mem_longestFirst]

end LexemeTable

theorem GuardedLexeme.ofWord?_eq_some {wordChars : List Char} {w : String} {g : GuardedLexeme} :
    ofWord? wordChars w = some g ↔ g.chars = w.toList ∧ g.before = .ofChar wordChars g.first ∧
      g.after = .ofChar wordChars (g.chars.getLast g.chars_ne_nil) := by
  obtain ⟨first, rest, before, after⟩ := g
  unfold ofWord?
  split
  · rename_i hw
    simp [chars, hw]
  · rename_i c cs hw
    simp only [Option.some.injEq, GuardedLexeme.mk.injEq, chars, hw, List.cons.injEq]
    constructor
    · rintro ⟨rfl, rfl, rfl, rfl⟩
      exact ⟨⟨rfl, rfl⟩, rfl, rfl⟩
    · rintro ⟨⟨rfl, rfl⟩, hbefore, hafter⟩
      exact ⟨rfl, rfl, hbefore.symm, hafter.symm⟩

theorem GuardedLexeme.exists_ofWord? {wordChars : List Char} {w : String} (hw : w.toList ≠ []) :
    ∃ g, ofWord? wordChars w = some g := by
  unfold ofWord?
  split
  · contradiction
  · exact ⟨_, rfl⟩

theorem GuardedLexeme.slice_of_matchesAt {wordChars : List Char} {g : GuardedLexeme}
    {t : Text} {p : Nat}
    (h : g.matchesAt wordChars t p = true) : t.slice p (p + g.length) = g.chars := by
  simp only [matchesAt, Bool.and_eq_true] at h
  exact Text.occursAt_iff_slice.1 h.1.1

namespace Pattern

variable {pat : Pattern} {t : Text}

theorem matchAt_eq_some {p n : Nat} (h : pat.matchAt t p = some n) :
    ∃ g ∈ pat.alternatives, g.matchesAt pat.wordChars t p = true ∧ g.length = n := by
  obtain ⟨g, hg, hn⟩ := Option.map_eq_some_iff.1 h
  exact ⟨g, List.mem_of_find?_eq_some hg, List.find?_some hg, hn⟩

theorem matchAt_ne_none {p : Nat} :
    pat.matchAt t p ≠ none ↔ ∃ g ∈ pat.alternatives, g.matchesAt pat.wordChars t p = true := by
  simp [matchAt]

theorem step_eq_some {p next : Nat} {m : Nat × Nat} :
    pat.step t p = some (m, next) ↔ ∃ n, pat.matchAt t p = some n ∧ m = (p, p + n) ∧
      next = p + n := by
  simp only [step, Option.map_eq_some_iff, Prod.mk.injEq]
  constructor
  · rintro ⟨n, hn, hm, hnext⟩
    exact ⟨n, hn, hm.symm, hnext.symm⟩
  · rintro ⟨n, hn, hm, hnext⟩
    exact ⟨n, hn, hm.symm, hnext.symm⟩

theorem places_step (pat : Pattern) (t : Text) : Text.Places (pat.step t) Prod.fst Prod.snd where
  first_eq {p next m} h := by
    obtain ⟨n, -, rfl, -⟩ := step_eq_some.1 h
    rfl
  last_eq {p next m} h := by
    obtain ⟨n, -, rfl, rfl⟩ := step_eq_some.1 h
    rfl
  lt {p next m} h := by
    obtain ⟨n, hn, -, rfl⟩ := step_eq_some.1 h
    obtain ⟨g, -, -, rfl⟩ := matchAt_eq_some hn
    have hpos := g.length_pos
    omega

theorem mem_hits {a b : Nat} {m : Nat × Nat} (h : m ∈ pat.hits t a b) :
    a ≤ m.1 ∧ m.1 < b ∧ m.1 < m.2 ∧
      ∃ g ∈ pat.alternatives, g.matchesAt pat.wordChars t m.1 = true ∧ m.2 = m.1 + g.length := by
  obtain ⟨hl, hu, hs⟩ := (places_step pat t).mem_sweep h
  obtain ⟨n, hn, hm, -⟩ := step_eq_some.1 hs
  obtain ⟨g, hg, hmatch, rfl⟩ := matchAt_eq_some hn
  exact ⟨hl, by omega, (places_step pat t).first_lt_last h, g, hg, hmatch, congrArg Prod.snd hm⟩

theorem pairwise_hits (pat : Pattern) (t : Text) (a b : Nat) :
    (pat.hits t a b).Pairwise fun m m' => m.2 ≤ m'.1 := (places_step pat t).pairwise_sweep a _

end Pattern

namespace CompiledTable

variable {T : CompiledTable} {t : Text}

theorem mem_scan {a b : Nat} {s : Span} :
    s ∈ T.scan t a b ↔ ∃ m ∈ T.pattern.hits t a b, s = ⟨m.1, min m.2 b, T.cls⟩ := by
  simp only [scan, Int.toNat_natCast, List.mem_map]
  constructor
  · rintro ⟨m, hm, hs⟩
    exact ⟨m, hm, hs.symm⟩
  · rintro ⟨m, hm, hs⟩
    exact ⟨m, hm, hs.symm⟩

theorem nodup_keys_scan (T : CompiledTable) (t : Text) (a b : Nat) :
    ((T.scan t a b).map Span.key).Nodup := by
  have hstarts : ((T.pattern.hits t a b).map fun m => ((m.1 : Int), T.cls)).Nodup := by
    refine List.pairwise_map.2 ((T.pattern.pairwise_hits t a b).imp_of_mem
      fun {m m'} hm _ hle heq => ?_)
    have hlt := (Pattern.mem_hits hm).2.2.1
    have hst : (m.1 : Int) = m'.1 := congrArg Prod.fst heq
    omega
  simpa [scan, Span.key, Function.comp_def] using hstarts

def claims (T : CompiledTable) (t : Text) (a b : Nat) (o : Int) : Bool :=
  (T.pattern.hits t a b).any fun m => (m.1 : Int) ≤ o && o < m.2

theorem claims_iff {a b : Nat} {o : Int} :
    T.claims t a b o = true ↔ ∃ m ∈ T.pattern.hits t a b, (m.1 : Int) ≤ o ∧ o < m.2 := by
  simp [claims]

theorem cls_of_mem_scan {a b : Nat} {s : Span} (h : s ∈ T.scan t a b) : s.cls = T.cls := by
  obtain ⟨m, -, rfl⟩ := mem_scan.1 h
  rfl

theorem lastOver_scan_eq_none {a b : Nat} {o : Int} (ho : o < b) :
    Span.lastOver (T.scan t a b) o = none ↔ T.claims t a b o = false := by
  rw [Span.lastOver_eq_none, ← Bool.not_eq_true, claims_iff]
  constructor
  · rintro hs ⟨m, hm, hl, hu⟩
    have hc := hs _ (mem_scan.2 ⟨m, hm, rfl⟩)
    rw [Span.covers_iff.2 ⟨hl, by simp; omega⟩] at hc
    simp at hc
  · rintro hno s hs
    obtain ⟨m, hm, rfl⟩ := mem_scan.1 hs
    by_contra hc
    obtain ⟨hl, hu⟩ := Span.covers_iff.1 (Bool.not_eq_false _ ▸ hc)
    exact hno ⟨m, hm, hl, by simp at hu; omega⟩

end CompiledTable

end OrsonHighlight
