import Mathlib.Data.List.Find
import OrsonHighlight.Proofs.Restart

/-!
What strings and comments hold makes no difference to what is read. No lexeme holds a character with
which a region opens or its content ends, so no match leads into a content or out of it, and the
text outside is read as it stands.
-/

set_option autoImplicit false

namespace OrsonHighlight

theorem Text.occursAt_congr {t t' : Text} {p : Nat} {w : List Char}
    (h : ∀ i, p ≤ i → i < p + w.length → t[i]? = t'[i]?) : t.occursAt p w = t'.occursAt p w := by
  induction w generalizing p with
  | nil => rfl
  | cons ch rest ih =>
    rw [List.length_cons] at h
    rw [occursAt_cons, occursAt_cons, h p (Nat.le_refl p) (by omega),
      ih fun i hi hi' => h i (by omega) (by omega)]

namespace Pattern

variable {pat : Pattern} {t t' : Text}

def StopsAt (pat : Pattern) (t : Text) (i : Nat) : Prop :=
  ∀ ch, t[i]? = some ch → ∀ g ∈ pat.alternatives, ch ∉ g.chars

theorem StopsAt.of_eq {i : Nat} (h : pat.StopsAt t i) (heq : t[i]? = t'[i]?) : pat.StopsAt t' i :=
  fun ch hch => h ch (heq.trans hch)

theorem StopsAt.not_covered {i p : Nat} (h : pat.StopsAt t i) {g : GuardedLexeme}
    (hg : g ∈ pat.alternatives)
    (hm : g.matchesAt pat.wordChars t p = true) : i < p ∨ p + g.length ≤ i := by
  by_contra hin
  have hslice := GuardedLexeme.slice_of_matchesAt hm
  have hsize : p + g.length ≤ t.size :=
    Text.le_size_of_occursAt g.chars_ne_nil (Text.occursAt_iff_slice.2 hslice)
  have hget : t[i]? = some t[i] := Array.getElem?_eq_getElem (by omega)
  have hmem : t[i] ∈ t.slice p (p + g.length) := Text.mem_slice.2 ⟨i, by omega, by omega, hget⟩
  rw [hslice] at hmem
  exact h _ hget g hg hmem

/-- A stretch from `x` up to `y` on which two texts agree and from which no match leads: it begins
where a lexeme stops, or at the start of the range after the same character, and it ends after such
a place, or with both texts. -/
structure Enclosed (pat : Pattern) (t t' : Text) (a x y : Nat) : Prop where
  agree : ∀ i, x ≤ i → i < y → t[i]? = t'[i]?
  left : pat.StopsAt t x ∨ x = a ∧ (x = 0 ∨ t[x - 1]? = t'[x - 1]?)
  right : 0 < y ∧ pat.StopsAt t (y - 1) ∨ t.size ≤ y ∧ t'.size ≤ y

namespace Enclosed

variable {a x y : Nat}

theorem symm (h : pat.Enclosed t t' a x y) (hxy : x < y) : pat.Enclosed t' t a x y where
  agree i hi hi' := (h.agree i hi hi').symm
  left := h.left.imp (fun hs => hs.of_eq (h.agree x (Nat.le_refl x) hxy))
    fun hl => ⟨hl.1, hl.2.imp id Eq.symm⟩
  right :=
    h.right.imp (fun hr => ⟨hr.1, hr.2.of_eq (h.agree (y - 1) (by omega) (by omega))⟩) And.symm

theorem matchesAt (h : pat.Enclosed t t' a x y) {p : Nat} (hp : x ≤ p) (hpy : p < y)
    {g : GuardedLexeme} (hg : g ∈ pat.alternatives) (hm : g.matchesAt pat.wordChars t p = true) :
    g.matchesAt pat.wordChars t' p = true := by
  have hpos := g.length_pos
  have hend : p + g.length < y ∨ p + g.length = y ∧ t.size ≤ y ∧ t'.size ≤ y := by
    rcases h.right with ⟨hy, hstop⟩ | hsize
    · have hcov := hstop.not_covered hg hm
      omega
    · simp only [GuardedLexeme.matchesAt, Bool.and_eq_true] at hm
      have hle : p + g.length ≤ t.size := Text.le_size_of_occursAt g.chars_ne_nil hm.1.1
      omega
  have hchars : t.occursAt p g.chars = t'.occursAt p g.chars :=
    Text.occursAt_congr fun i hi (hi' : i < p + g.length) => h.agree i (by omega) (by omega)
  have hbefore : p = 0 ∨ t[p - 1]? = t'[p - 1]? := by
    by_cases hpx : p = x
    · subst hpx
      rcases h.left with hstop | ⟨-, hl⟩
      · have hcov := hstop.not_covered hg hm
        omega
      · exact hl
    · exact .inr (h.agree _ (by omega) (by omega))
  have hafter : t[p + g.length]? = t'[p + g.length]? := by
    rcases hend with hlt | ⟨heq, hsize, hsize'⟩
    · exact h.agree _ (by omega) hlt
    · rw [heq, Array.getElem?_eq_none hsize, Array.getElem?_eq_none hsize']
  simp only [GuardedLexeme.matchesAt, Bool.and_eq_true, Bool.or_eq_true, beq_iff_eq] at hm ⊢
  obtain ⟨⟨hocc, hleft⟩, hright⟩ := hm
  refine ⟨⟨hchars ▸ hocc, ?_⟩, hafter ▸ hright⟩
  rcases hbefore with hzero | heq
  · exact .inl hzero
  · exact heq ▸ hleft

theorem step_eq (h : pat.Enclosed t t' a x y) {p : Nat} (hp : x ≤ p) (hpy : p < y) :
    pat.step t p = pat.step t' p := by
  have hfind : pat.alternatives.find? (·.matchesAt pat.wordChars t p) =
      pat.alternatives.find? (·.matchesAt pat.wordChars t' p) := by
    refine List.find?_congr fun g hg => ?_
    rw [Bool.eq_iff_iff]
    exact ⟨h.matchesAt hp hpy hg, (h.symm (by omega)).matchesAt hp hpy hg⟩
  rw [step, step, matchAt, matchAt, hfind]

theorem hits_eq (h : pat.Enclosed t t' a x y) (hsize : t.size = t'.size) {e : Nat} (he : e ≤ y) :
    pat.hits t x e = pat.hits t' x e := by
  rw [hits, hits, hsize]
  exact Text.sweep_congr fun p hp hpe => h.step_eq hp (by omega)

theorem hits_split (h : pat.Enclosed t t' a x y) {b : Nat} :
    ∀ m ∈ pat.hits t a b, m.1 < x → m.2 ≤ x := by
  intro m hm hlt
  obtain ⟨hl, -, -, g, hg, hmatch, hend⟩ := mem_hits hm
  rcases h.left with hstop | ⟨hxa, -⟩
  · have hcov := hstop.not_covered hg hmatch
    omega
  · omega

end Enclosed

end Pattern

namespace Conventions

variable {c : Conventions} {t t' : Text} {a b : Nat}

def contentStart (c : Conventions) (r : Region) : Int :=
  match r.kind with
  | .string => r.opening + c.width
  | .comment => r.opening + c.comment.length

/-- Before the closing delimiter of a string that has one; otherwise the end of the region. -/
def contentStop (c : Conventions) (r : Region) : Int :=
  if r.isTerminatedString then r.stop - c.width else r.stop

def InContent (c : Conventions) (r : Region) (o : Int) : Prop :=
  c.contentStart r ≤ o ∧ o < c.contentStop r

instance (c : Conventions) (r : Region) (o : Int) : Decidable (c.InContent r o) :=
  inferInstanceAs (Decidable (_ ∧ _))

/-- Texts of one length that differ in the contents of the regions only. -/
structure SameOutside (c : Conventions) (rs : List Region) (t t' : Text) : Prop where
  size : t.size = t'.size
  get : ∀ o : Nat, (∀ r ∈ rs, ¬ c.InContent r o) → t[o]? = t'[o]?

def Separates (c : Conventions) (ch : Char) : Prop :=
  ch = c.quote ∨ c.comment.head? = some ch ∨ isLineEnd ch = true

theorem opening_lt_contentStart (hc : c.Advances) (r : Region) : r.opening < c.contentStart r := by
  have hpos := c.width_pos
  have hcomment := List.length_pos_iff.2 hc.comment_ne_nil
  unfold contentStart
  split <;> omega

theorem contentStop_le_stop (c : Conventions) (r : Region) : c.contentStop r ≤ r.stop := by
  unfold contentStop
  split <;> omega

theorem contentStop_closed (c : Conventions) (p : Int) (q : Nat) :
    c.contentStop ⟨.string, p, (q + c.width - 1 : Nat), true⟩ = q := by
  have hstop := stop_closed c p q
  unfold contentStop
  split
  · omega
  · rename_i hterm
    exact absurd rfl hterm

theorem IsRegion.separates_opening (hc : c.Advances) {r : Region} (h : c.IsRegion t r) {p : Nat}
    (hp : r.opening = p) {ch : Char} (hch : t[p]? = some ch) : c.Separates ch := by
  cases h with
  | @comment a e hocc =>
    obtain rfl : a = p := Int.ofNat.inj hp
    obtain ⟨first, rest, hcr⟩ := List.exists_cons_of_ne_nil hc.comment_ne_nil
    rw [hcr, Text.occursAt_cons, Bool.and_eq_true, beq_iff_eq, hch, Option.some.injEq] at hocc
    exact .inr (.inl (by rw [hcr, hocc.1]; rfl))
  | @closed a q hs =>
    obtain rfl : a = p := Int.ofNat.inj hp
    exact .inl (Option.some.inj (hch.symm.trans (occursAt_delimiter hs.1)))
  | @unclosed a hs =>
    obtain rfl : a = p := Int.ofNat.inj hp
    exact .inl (Option.some.inj (hch.symm.trans (occursAt_delimiter hs.1)))

theorem IsRegion.separates_contentStop {r : Region} (h : c.IsRegion t r) {p : Nat}
    (hp : c.contentStop r = p) {ch : Char} (hch : t[p]? = some ch) : c.Separates ch := by
  cases h with
  | @comment a e _ _ _ _ hend =>
    obtain rfl : e = p := Int.ofNat.inj hp
    rcases hend with rfl | ⟨ch', hch', hend⟩
    · simp at hch
    · obtain rfl := Option.some.inj (hch.symm.trans hch')
      exact .inr (.inr hend)
  | @closed a q _ _ _ hclose =>
    obtain rfl : q = p := Int.ofNat.inj ((contentStop_closed c a q).symm.trans hp)
    exact .inl (Option.some.inj (hch.symm.trans (occursAt_delimiter hclose)))
  | @unclosed a =>
    obtain rfl : t.size = p := Int.ofNat.inj hp
    simp at hch

/-- The offsets of a range that lie in no region past its first character and before the end of its
content. -/
def openGround (c : Conventions) (rs : List Region) (a n : Nat) (o : Int) : Option Unit :=
  if (a : Int) ≤ o ∧ o < n ∧ ∀ r ∈ rs, o ≤ r.opening ∨ c.contentStop r ≤ o then some () else none

theorem openGround_eq_some {rs : List Region} {n : Nat} {o : Int} :
    c.openGround rs a n o = some () ↔
      (a : Int) ≤ o ∧ o < n ∧ ∀ r ∈ rs, o ≤ r.opening ∨ c.contentStop r ≤ o := by
  unfold openGround
  split <;> simp_all

theorem bounded_openGround (c : Conventions) (rs : List Region) (a n : Nat) :
    IsRun.Bounded (c.openGround rs a n) a n := by
  intro o ho
  obtain ⟨u, hu⟩ := Option.ne_none_iff_exists'.1 ho
  have hin := openGround_eq_some.1 hu
  exact ⟨hin.1, hin.2.1⟩

theorem exists_enclosed (hc : c.Advances) {pat : Pattern}
    (hpat : ∀ g ∈ pat.alternatives, ∀ ch ∈ g.chars, ¬ c.Separates ch)
    (hsame : c.SameOutside (c.regions t a b) t t') {o : Int} (hao : a ≤ o) (hon : o < t.size)
    (hout : ∀ r ∈ c.regions t a b, r.span.covers o = false) :
    ∃ x y : Nat, a ≤ x ∧ x ≤ o ∧ o < y ∧ pat.Enclosed t t' a x y := by
  have stops : ∀ {i : Nat}, (∀ ch, t[i]? = some ch → c.Separates ch) → pat.StopsAt t i :=
    fun {i} hi ch hch g hg hmem => hpat g hg ch hmem (hi ch hch)
  have ho : c.openGround (c.regions t a b) a t.size o = some () := by
    refine openGround_eq_some.2 ⟨hao, hon, fun r hr => ?_⟩
    by_contra hin
    have hle := contentStop_le_stop c r
    have hcov : r.span.covers o = true := Span.covers_iff.2 (by simp only [Region.span]; omega)
    simp [hout r hr] at hcov
  obtain ⟨x, y, hr, hx, hy⟩ := IsRun.exists_mem (bounded_openGround c _ a t.size) ho
  obtain ⟨hax, hxy, hyn⟩ := hr.bounds (bounded_openGround c _ a t.size)
  refine ⟨x.toNat, y.toNat, by omega, by omega, by omega, fun i hi hi' => ?_, ?_, ?_⟩
  · have hin := (openGround_eq_some.1 (hr.mark i (by omega) (by omega))).2.2
    refine hsame.get i fun r hr hcont => ?_
    have hlt := opening_lt_contentStart hc r
    have hapart := hin r hr
    unfold InContent at hcont
    omega
  · by_cases hxa : x = a
    · refine .inr ⟨by omega, ?_⟩
      by_cases hzero : x = 0
      · exact .inl (by omega)
      · refine .inr (hsame.get _ fun r hr hcont => ?_)
        have hlt := opening_lt_contentStart hc r
        have hb := bounds_of_mem hc hr
        unfold InContent at hcont
        omega
    · -- the offset before is past the opening of a region, whose content must then end at `x`
      refine .inl ?_
      have hleft := hr.left
      rw [ne_eq, openGround_eq_some] at hleft
      push Not at hleft
      obtain ⟨r, hrmem, hopen, hstop⟩ := hleft (by omega) (by omega)
      have hin := (openGround_eq_some.1 (hr.mark x (Int.le_refl x) hxy)).2.2 r hrmem
      exact stops fun ch hch => (isRegion_of_mem hc hrmem).separates_contentStop (by omega) hch
  · by_cases hyt : y = t.size
    · have hsize := hsame.size
      exact .inr ⟨by omega, by omega⟩
    · refine .inl ⟨by omega, ?_⟩
      have hright := hr.right
      rw [ne_eq, openGround_eq_some] at hright
      push Not at hright
      obtain ⟨r, hrmem, hopen, hstop⟩ := hright (by omega) (by omega)
      have hin := (openGround_eq_some.1 (hr.mark (y - 1) (by omega) (by omega))).2.2 r hrmem
      exact stops fun ch hch => (isRegion_of_mem hc hrmem).separates_opening hc (by omega) hch

end Conventions

namespace Classification

variable {tables : List CompiledTable} {c : Conventions} {t t' : Text} {a b : Nat}

theorem showing_eq_of_sameOutside (hc : c.Advances)
    (htables : ∀ T ∈ tables, ∀ g ∈ T.pattern.alternatives, ∀ ch ∈ g.chars, ¬ c.Separates ch)
    (hb : b ≤ t.size)
    (hregions : c.regions t a b = c.regions t' a b) (hsame : c.SameOutside (c.regions t a b) t t') :
    showing tables c t a b = showing tables c t' a b := by
  funext o
  by_cases ho : (a : Int) ≤ o ∧ o < b
  · by_cases hin : ∃ r ∈ c.regions t a b, r.span.covers o = true
    · obtain ⟨r, hr, hcov⟩ := hin
      rw [showing_of_region hc hr ho hcov, showing_of_region hc (hregions ▸ hr) ho hcov]
    · have hout : ∀ r ∈ c.regions t a b, r.span.covers o = false := fun r hr => by
        by_contra hcov
        exact hin ⟨r, hr, by simpa using hcov⟩
      rw [showing_of_no_region ho hout, showing_of_no_region ho (hregions ▸ hout)]
      refine Span.map_key_lastOver_flatMap fun T hT => ?_
      obtain ⟨x, y, hax, hx, hy, henc⟩ :=
        Conventions.exists_enclosed hc (htables T hT) hsame ho.1 (by omega) hout
      have hscan : T.scan t x (min y b : Nat) = T.scan t' x (min y b : Nat) := by
        simp only [CompiledTable.scan, Int.toNat_natCast,
          henc.hits_eq hsame.size (Nat.min_le_left y b)]
      rw [← map_key_lastOver_scan hax (Nat.min_le_right y b) henc.hits_split hx (by omega), hscan,
        map_key_lastOver_scan hax (Nat.min_le_right y b)
        (henc.symm (by omega)).hits_split hx (by omega)]
  · have hnone : ∀ u : Text, showing tables c u a b o = none := fun u => by
      by_contra hne
      exact ho (bounded_showing tables c u a b o hne)
    rw [hnone t, hnone t']

theorem ofRange_eq_of_sameOutside (hc : c.Advances) (ht : DistinctClasses tables)
    (htables : ∀ T ∈ tables, ∀ g ∈ T.pattern.alternatives, ∀ ch ∈ g.chars, ¬ c.Separates ch)
    (hb : b ≤ t.size)
    (hregions : c.regions t a b = c.regions t' a b) (hsame : c.SameOutside (c.regions t a b) t t') :
    ofRange tables c t a b = ofRange tables c t' a b := by
  have hspans : (ofRange tables c t a b).spans = (ofRange tables c t' a b).spans := by
    refine eq_of_mem_iff_of_ascending (ascending_spans_ofRange hc ht t a b)
      (ascending_spans_ofRange hc ht t' a b) fun s => ?_
    rw [mem_spans_ofRange hc ht, mem_spans_ofRange hc ht,
      showing_eq_of_sameOutside hc htables hb hregions hsame]
  have hfences : (ofRange tables c t a b).fences = (ofRange tables c t' a b).fences :=
    congrArg (Fences.ofRegions a b) hregions
  exact (Classification.mk.injEq ..).mpr ⟨rfl, rfl, hspans, hregions, hfences⟩

end Classification

namespace Conventions

variable {c : Conventions} {t : Text}

theorem scan_eq_regions_clamp (c : Conventions) (t : Text) (start : Int) (stop : Option Int) :
    c.scan t start stop = c.regions t (Text.clamp t.size start stop).1
      (Text.clamp t.size start stop).2 := by
  have hsame : ∀ {x y : Nat}, y ≤ t.size →
      c.regions t x y = c.regions t (min x t.size) (max (min x t.size) y) := fun {x y} hy => by
    by_cases hxy : x < y
    · rw [Nat.min_eq_left (by omega), Nat.max_eq_right (by omega)]
    · rw [regions_of_le c t (by omega), regions_of_le c t (by omega)]
  unfold scan Text.clamp
  cases stop with
  | none => exact hsame (Nat.le_refl _)
  | some b => exact hsame (Nat.min_le_right _ _)

end Conventions

namespace Mode

variable {m : Mode}

/-- No lexeme holds a line end or the first character of the delimiter or of the comment trigger. -/
structure Separated (m : Mode) : Prop where
  scannable : m.Scannable
  lexemes : ∀ T ∈ m.dialect.tables,
    ∀ w ∈ T.lexemes, ∀ ch ∈ w.toList, m.stringDelimiter.toList.head? ≠ some ch ∧
    m.commentStart.toList.head? ≠ some ch ∧ ch ≠ '\n' ∧ ch ≠ '\r'

theorem separated_orson : Mode.orson.Separated where
  scannable := scannable_orson
  lexemes := by
    have hall :
        (Mode.orson.dialect.tables.all fun T => T.lexemes.all fun w => w.toList.all fun ch =>
        Mode.orson.stringDelimiter.toList.head? ≠ some ch ∧
          Mode.orson.commentStart.toList.head? ≠ some ch ∧
          ch ≠ '\n' ∧ ch ≠ '\r') = true := by decide +kernel
    simpa only [List.all_eq_true, decide_eq_true_eq] using hall

theorem Separated.not_separates (hm : m.Separated) {c : Conventions} (hc : m.Reads c) :
    ∀ T ∈ m.compiled, ∀ g ∈ T.pattern.alternatives, ∀ ch ∈ g.chars, ¬ c.Separates ch := by
  intro T hT g hg ch hch hsep
  obtain ⟨table, htable, rfl⟩ := List.mem_map.1 hT
  obtain ⟨w, hw, hword⟩ := LexemeTable.mem_alternatives.1 hg
  rw [(GuardedLexeme.ofWord?_eq_some.1 hword).1] at hch
  obtain ⟨hquote, hcomment, hlf, hcr⟩ := hm.lexemes table htable w hw ch hch
  rcases hsep with rfl | hhead | hend
  · exact hquote (by rw [← hc.delimiter]; rfl)
  · exact hcomment (by rw [← hc.comment]; exact hhead)
  · simp [isLineEnd, hlf, hcr] at hend

theorem classify_eq_of_sameOutside (m : Mode) (t t' : Text) (start : Int) (stop : Option Int) :
    Mode.orson.Separated ∧ (m.Separated → ∀ c, m.conventions? = some c →
      c.scan t start stop = c.scan t' start stop → c.SameOutside (c.scan t start stop) t t' →
        ∃ r, m.classify t start stop = some r ∧ m.classify t' start stop = some r) := by
  refine ⟨separated_orson, fun hm c hconv hscan hsame => ?_⟩
  obtain ⟨c', hc⟩ := hm.scannable.exists_reads
  obtain rfl : c' = c := Option.some.inj (hc.conventions.symm.trans hconv)
  have hsize := hsame.size
  rw [c'.scan_eq_regions_clamp] at hsame hscan
  rw [c'.scan_eq_regions_clamp, ← hsize] at hscan
  refine ⟨_, hc.classify_eq t start stop, ?_⟩
  rw [hc.classify_eq t' start stop, ← hsize]
  exact congrArg some
    (Classification.ofRange_eq_of_sameOutside hc.advances m.distinctClasses_compiled
      (hm.not_separates hc) (Text.clamp_snd_le _ _ _) hscan hsame).symm

theorem classify_eq_of_sameOutside_orson :
    let c : Conventions := ⟨['!'], '\'', ['\'']⟩
    let t := Text.ofString "if ''then'' do!end\nof"
    let t' := Text.ofString "if ''a!&+'' do!''x\nof"
    Mode.orson.Separated ∧ Mode.orson.conventions? = some c ∧
      c.scan t 3 (some 16) = c.scan t' 3 (some 16) ∧ c.SameOutside (c.scan t 3 (some 16)) t t' ∧
        ∃ r, Mode.orson.classify t 3 (some 16) = some r ∧
        Mode.orson.classify t' 3 (some 16) = some r := by
  intro c t t'
  have hconv : Mode.orson.conventions? = some c := by decide +kernel
  have hregions : c.scan t 3 (some 16) = [⟨.string, 3, 10, true⟩, ⟨.comment, 14, 18, true⟩] := by
    decide +kernel
  have hregions' : c.scan t' 3 (some 16) = [⟨.string, 3, 10, true⟩, ⟨.comment, 14, 18, true⟩] := by
    decide +kernel
  have hscan : c.scan t 3 (some 16) = c.scan t' 3 (some 16) := hregions.trans hregions'.symm
  have hsize : t.size = 21 ∧ t'.size = 21 := by decide +kernel
  have hsame : c.SameOutside (c.scan t 3 (some 16)) t t' := by
    rw [hregions]
    refine ⟨hsize.1.trans hsize.2.symm, fun o ho => ?_⟩
    by_cases hlt : o < 21
    · have hall :
          ∀ o < 21,
          (∀ r ∈ [⟨.string, 3, 10, true⟩, ⟨.comment, 14, 18, true⟩], ¬ c.InContent r (o : Nat)) →
          t[o]? = t'[o]? := by decide +kernel
      exact hall o hlt ho
    · rw [Array.getElem?_eq_none (by omega), Array.getElem?_eq_none (by omega)]
  obtain ⟨horson, h⟩ := classify_eq_of_sameOutside Mode.orson t t' 3 (some 16)
  exact ⟨horson, hconv, hscan, hsame, h horson c hconv hscan hsame⟩

end Mode

end OrsonHighlight
