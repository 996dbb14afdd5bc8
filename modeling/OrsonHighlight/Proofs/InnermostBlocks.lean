import Mathlib.Data.Finset.Card
import Mathlib.Order.Interval.Finset.Nat
import OrsonHighlight.EnclosingBlock
import OrsonHighlight.Proofs.Restart
import OrsonHighlight.Proofs.TouchingComments

/-!
The block around an offset by counting alone: it is opened by the last bracket in code before the
offset that the brackets after it do not close.
-/

set_option autoImplicit false

namespace OrsonHighlight

theorem Text.sweep_eq_filterMap {α : Type} {step : Nat → Option (α × Nat)} {f : Nat → Option α}
    (h : ∀ p, step p = (f p).map fun x => (x, p + 1)) (a b : Nat) :
    sweep step a b = (List.range' a (b - a)).filterMap f := by
  induction hn : b - a generalizing a with
  | zero => rw [sweep_of_le (by omega)]; rfl
  | succ n ih =>
    have ih := ih (a + 1) (by omega)
    rw [List.range'_succ, List.filterMap_cons]
    cases hf : f a with
    | none => rw [sweep_of_none (by omega) (by simp [h, hf]), ih]
    | some x =>
      have hstep : step a = some (x, a + 1) := by rw [h, hf]; rfl
      rw [sweep_of_some (by omega) hstep, Nat.max_self, ih]

theorem Edge.admits_free (wordChars : List Char) (x : Option Char) :
    Edge.free.admits wordChars x = true := by
  cases x <;> rfl

theorem CompiledTable.exists_lexeme_of_claims {T : LexemeTable} {wordChars : String}
    {t : Text} {a b o : Nat}
    {ch : Char} (h : (T.compile wordChars).claims t a b o = true) (ho : t[o]? = some ch) :
    ∃ w ∈ T.lexemes, ch ∈ w.toList := by
  obtain ⟨hit, hhit, hl, hu⟩ := CompiledTable.claims_iff.1 h
  obtain ⟨-, -, -, g, hg, hmatch, hend⟩ := Pattern.mem_hits hhit
  obtain ⟨w, hw, hword⟩ := LexemeTable.mem_alternatives.1 hg
  refine ⟨w, hw, ?_⟩
  rw [← (GuardedLexeme.ofWord?_eq_some.1 hword).1]
  exact GuardedLexeme.mem_chars_of_matchesAt hmatch (by omega) (by omega) ho

theorem CompiledTable.claims_of_free {T : LexemeTable} {wordChars w : String} {ch : Char}
    (hw : w ∈ T.lexemes)
    (hch : w.toList = [ch]) (hfree : Edge.ofChar wordChars.toList ch = .free) {t : Text} {p : Nat}
    (hp : t[p]? = some ch) : (T.compile wordChars).claims t 0 t.size p = true := by
  have hsize : p < t.size := (Array.getElem?_eq_some_iff.1 hp).1
  have hg : GuardedLexeme.ofWord? wordChars.toList w = some ⟨ch, [], .free, .free⟩ := by
    simp [GuardedLexeme.ofWord?_eq_some, GuardedLexeme.chars, hch, hfree]
  have hmatch : GuardedLexeme.matchesAt wordChars.toList t p ⟨ch, [], .free, .free⟩ = true := by
    simp [GuardedLexeme.matchesAt, GuardedLexeme.chars, hp, Edge.admits_free]
  obtain ⟨n, hn, -⟩ := LexemeTable.exists_matchAt hw hg hmatch
  have hstep : (T.pattern wordChars).step t p ≠ none := by simp [Pattern.step, hn]
  obtain ⟨hit, hhit, hl, hu⟩ := (Pattern.places_step _ t).exists_mem_sweep (Nat.zero_le p)
    (show p < min t.size t.size by omega) hstep
  exact CompiledTable.claims_iff.2 ⟨hit, hhit, by omega, by omega⟩

namespace Mode

structure Bracketed (m : Mode) (left right : Char) : Prop where
  blockOpen : m.blockOpen.toList = [left]
  blockClose : m.blockClose.toList = [right]
  ne : left ≠ right

def isCode (rs : List Region) (p : Nat) : Bool := rs.all fun r => !r.span.covers p

/-- The offsets from `a` on and before `b` at which the character stands in code. -/
def inCode (t : Text) (rs : List Region) (ch : Char) (a b : Nat) : Finset Nat :=
  (Finset.Ico a b).filter fun i => isCode rs i = true ∧ t[i]? = some ch

/-- An opener in code that is not closed before `k`: from it up to any offset before `k`, the code
holds no more closers than further openers. -/
structure Unclosed (t : Text) (rs : List Region) (left right : Char) (k p : Nat) : Prop where
  lt : p < k
  code : isCode rs p = true
  opener : t[p]? = some left
  covered : ∀ q, p < q → q < k →
    (inCode t rs right (p + 1) (q + 1)).card ≤ (inCode t rs left (p + 1) (q + 1)).card

def bracketHere (t : Text) (left right : Char) (p : Nat) : Option Bracket :=
  if t[p]? = some left then some (.opener p) else if t[p]? = some right then some .closer else none

def codeBracket (t : Text) (rs : List Region) (left right : Char) (p : Nat) : Option Bracket :=
  if isCode rs p = true then bracketHere t left right p else none

variable {m : Mode} {c : Conventions} {t : Text} {rs : List Region} {left right : Char}

theorem Bracketed.brackets_eq (hb : m.Bracketed left right) (t : Text) (a b : Nat) :
    m.brackets t a b = (List.range' a (b - a)).filterMap (bracketHere t left right) := by
  refine Text.sweep_eq_filterMap (fun p => ?_) a b
  have hopen : m.blockOpen.length = 1 := by rw [← String.length_toList, hb.blockOpen]; rfl
  have hclose : m.blockClose.length = 1 := by rw [← String.length_toList, hb.blockClose]; rfl
  simp only [bracketAt, bracketHere, hb.blockOpen, hb.blockClose, hopen, hclose, Text.occursAt_cons,
    Text.occursAt_nil, Bool.and_true, beq_iff_eq]
  split
  · rfl
  · split <;> rfl

theorem codeBracket_nil (t : Text) (left right : Char) :
    codeBracket t [] left right = bracketHere t left right := by
  funext p
  simp [codeBracket, isCode]

theorem isCode_eq_true {p : Nat} : isCode rs p = true ↔ ∀ r ∈ rs, r.span.covers p = false := by
  simp [isCode]

theorem isCode_cons_of_lt {r : Region} {p : Nat} (h : (p : Int) < r.opening) :
    isCode (r :: rs) p = isCode rs p := by
  have hno : r.span.covers p = false := by
    rw [← Bool.not_eq_true, Classification.span_covers_iff]
    omega
  simp [isCode, hno]

theorem isCode_cons_of_ge {r : Region} {p : Nat} (h : r.stop ≤ p) :
    isCode (r :: rs) p = isCode rs p := by
  have hno : r.span.covers p = false := by
    rw [← Bool.not_eq_true, Classification.span_covers_iff]
    omega
  simp [isCode, hno]

theorem isCode_cons_of_covers {r : Region} {p : Nat} (h : r.opening ≤ p ∧ (p : Int) < r.stop) :
    isCode (r :: rs) p = false := by
  simp [isCode, Classification.span_covers_iff.2 h]

theorem filterMap_codeBracket_eq_nil {r : Region} {a n : Nat} (ha : r.opening ≤ a)
    (hn : (a + n : Int) ≤ r.stop) :
    (List.range' a n).filterMap (codeBracket t (r :: rs) left right) = [] := by
  refine List.filterMap_eq_nil_iff.2 fun i hi => ?_
  have hi := List.mem_range'_1.1 hi
  rw [codeBracket, isCode_cons_of_covers (by omega)]
  rfl

theorem range'_sub_append {a b e : Nat} (hab : a ≤ b) (hbe : b ≤ e) :
    List.range' a (e - a) = List.range' a (b - a) ++ List.range' b (e - b) := by
  have happend := List.range'_append_1 (s := a) (m := b - a) (n := e - b)
  rw [show a + (b - a) = b by omega, show b - a + (e - b) = e - a by omega] at happend
  exact happend.symm

/-- Between regions that lie apart, the brackets of the ranges without a region are those in
code. -/
theorem flatMap_codeRanges (t : Text) (left right : Char) {p stop : Nat} (hp : p ≤ stop)
    (hrs : ∀ r ∈ rs, (p : Int) ≤ r.opening ∧ r.opening < stop ∧ r.opening < r.stop)
    (hapart : rs.Pairwise fun r r' => r.stop ≤ r'.opening) :
    ((codeRanges p stop rs).flatMap fun g =>
      (List.range' g.1 (g.2 - g.1)).filterMap (bracketHere t left right)) =
      (List.range' p (stop - p)).filterMap (codeBracket t rs left right) := by
  induction rs generalizing p with
  | nil => simp [codeRanges, codeBracket_nil]
  | cons r rest ih =>
    obtain ⟨hafter, hapart⟩ := List.pairwise_cons.1 hapart
    obtain ⟨hopen, hbefore, hlt⟩ := hrs r (List.mem_cons_self ..)
    have hgap :
        (List.range' p (r.opening.toNat - p)).filterMap (codeBracket t (r :: rest) left right) =
        (List.range' p (r.opening.toNat - p)).filterMap (bracketHere t left right) := by
      refine List.filterMap_congr fun i hi => ?_
      have hi := List.mem_range'_1.1 hi
      have hcode : isCode (r :: rest) i = true := by
        rw [isCode_cons_of_lt (by omega), isCode_eq_true]
        intro r' hr'
        have hle := hafter r' hr'
        rw [← Bool.not_eq_true, Classification.span_covers_iff]
        omega
      rw [codeBracket, if_pos hcode]
    rw [codeRanges, List.flatMap_cons, show min r.opening.toNat stop = r.opening.toNat by omega,
      range'_sub_append (show p ≤ r.opening.toNat by omega) (show r.opening.toNat ≤ stop by omega),
      List.filterMap_append, hgap]
    congr 1
    split
    · rw [filterMap_codeBracket_eq_nil (by omega) (by omega)]
      rfl
    · -- past the region the rest is read as it would be without it
      rw [range'_sub_append (show r.opening.toNat ≤ r.stop.toNat by omega)
        (show r.stop.toNat ≤ stop by omega), List.filterMap_append,
        filterMap_codeBracket_eq_nil (by omega) (by omega), List.nil_append,
        ih (by omega) (fun r' hr' => ?_) hapart]
      · refine List.filterMap_congr fun i hi => ?_
        have hi := List.mem_range'_1.1 hi
        rw [codeBracket, codeBracket, isCode_cons_of_ge (by omega)]
      · have hle := hafter r' hr'
        have hr' := hrs r' (List.mem_cons_of_mem r hr')
        omega

theorem isCode_regions (hc : c.Advances) {k p : Nat} (hk : k ≤ t.size) (hp : p < k) :
    isCode (c.regions t 0 k) p = isCode (c.regions t 0 t.size) p := by
  rw [Conventions.regions_eq_filter hc (Nat.le_refl 0) hk (by omega), Bool.eq_iff_iff,
    isCode_eq_true, isCode_eq_true]
  constructor
  · intro hno r hr
    by_cases hopen : r.opening < k
    · have hstart := (Conventions.bounds_of_mem hc hr).1
      exact hno r (List.mem_filter.2 ⟨hr, by simp; omega⟩)
    · rw [← Bool.not_eq_true, Classification.span_covers_iff]
      omega
  · exact fun hno r hr => hno r (List.mem_filter.1 hr).1

theorem Bracketed.openBlocksBefore_eq (hb : m.Bracketed left right) (hc : c.Advances) {k : Nat}
    (hk : k ≤ t.size) :
    m.openBlocksBefore t k (c.regions t 0 k) =
      openBlocks ((List.range k).filterMap (codeBracket t (c.regions t 0 t.size) left right)) := by
  have hgaps := flatMap_codeRanges t left right (Nat.zero_le k)
    (fun r hr => by have hr := Conventions.bounds_of_mem hc hr; omega)
    (Conventions.pairwise_regions hc t 0 k)
  simp only [openBlocksBefore, hb.brackets_eq]
  rw [hgaps, Nat.sub_zero, ← List.range_eq_range']
  congr 1
  refine List.filterMap_congr fun p hp => ?_
  rw [codeBracket, codeBracket, isCode_regions hc hk (List.mem_range.1 hp)]

theorem card_inCode_self (t : Text) (rs : List Region) (ch : Char) (a : Nat) :
    (inCode t rs ch a a).card = 0 := by
  simp [inCode]

theorem card_inCode_succ {a b : Nat} (ch : Char) (h : a ≤ b) : (inCode t rs ch a (b + 1)).card =
    (inCode t rs ch a b).card + if isCode rs b = true ∧ t[b]? = some ch then 1 else 0 := by
  have hinsert : Finset.Ico a (b + 1) = insert b (Finset.Ico a b) := by
    ext i
    simp only [Finset.mem_Ico, Finset.mem_insert]
    omega
  rw [inCode, inCode, hinsert, Finset.filter_insert]
  split
  · rw [Finset.card_insert_of_notMem (by simp)]
  · rfl

theorem Unclosed.card_le {k p : Nat} (h : Unclosed t rs left right k p) :
    (inCode t rs right (p + 1) k).card ≤ (inCode t rs left (p + 1) k).card := by
  have hlt := h.lt
  by_cases hk : p + 1 = k
  · rw [hk, card_inCode_self, card_inCode_self]
  · have hle := h.covered (k - 1) (by omega) (by omega)
    rwa [show k - 1 + 1 = k by omega] at hle

theorem unclosed_succ_iff {k p : Nat} : Unclosed t rs left right (k + 1) p ↔
    p = k ∧ isCode rs k = true ∧ t[k]? = some left ∨
      Unclosed t rs left right k p ∧
        (inCode t rs right (p + 1) (k + 1)).card ≤ (inCode t rs left (p + 1) (k + 1)).card := by
  constructor
  · intro h
    by_cases hp : p = k
    · exact .inl ⟨hp, hp ▸ h.code, hp ▸ h.opener⟩
    · have hlt := h.lt
      exact .inr ⟨⟨by omega, h.code, h.opener, fun q hq hqk => h.covered q hq (by omega)⟩,
        h.covered k (by omega) (by omega)⟩
  · rintro (⟨rfl, hcode, hopener⟩ | ⟨h, hle⟩)
    · exact ⟨by omega, hcode, hopener, by omega⟩
    · refine ⟨by have := h.lt; omega, h.code, h.opener, fun q hq hqk => ?_⟩
      by_cases hlast : q = k
      · rwa [hlast]
      · exact h.covered q hq (by omega)

/-- The stack before `k` holds the openers that are not closed, the last of them first, and above
each stand as many as the openers past it exceed the closers. -/
structure Stacked (t : Text) (rs : List Region) (left right : Char) (k : Nat) (opened : List Nat) :
    Prop where
  mem_iff : ∀ p, p ∈ opened ↔ Unclosed t rs left right k p
  descending : opened.Pairwise (· > ·)
  above : ∀ i p, opened[i]? = some p →
    (inCode t rs left (p + 1) k).card = (inCode t rs right (p + 1) k).card + i

variable {k : Nat} {opened : List Nat}

theorem stacked_zero (t : Text) (rs : List Region) (left right : Char) :
    Stacked t rs left right 0 [] where
  mem_iff p := by
    constructor
    · simp
    · exact fun h => absurd h.lt (Nat.not_lt_zero p)
  descending := List.Pairwise.nil
  above := by simp

theorem Stacked.lt (h : Stacked t rs left right k opened) {i p : Nat} (hp : opened[i]? = some p) :
    p < k :=
  ((h.mem_iff p).1 (List.mem_of_getElem? hp)).lt

theorem Stacked.push (h : Stacked t rs left right k opened) (hne : left ≠ right)
    (hcode : isCode rs k = true)
    (hk : t[k]? = some left) : Stacked t rs left right (k + 1) (k :: opened) := by
  have hstep :
      ∀ p, p < k → (inCode t rs left (p + 1) (k + 1)).card = (inCode t rs left (p + 1) k).card + 1 ∧
      (inCode t rs right (p + 1) (k + 1)).card = (inCode t rs right (p + 1) k).card := by
    intro p hp
    rw [card_inCode_succ right (by omega), card_inCode_succ left (by omega)]
    simp [hcode, hk, hne]
  refine ⟨fun p => ?_, ?_, fun i p hp => ?_⟩
  · rw [List.mem_cons, h.mem_iff, unclosed_succ_iff]
    constructor
    · rintro (rfl | hp)
      · exact .inl ⟨rfl, hcode, hk⟩
      · have hle := hp.card_le
        obtain ⟨hleft, hright⟩ := hstep p hp.lt
        exact .inr ⟨hp, by omega⟩
    · exact Or.imp (·.1) (·.1)
  · exact List.pairwise_cons.2 ⟨fun p hp => ((h.mem_iff p).1 hp).lt, h.descending⟩
  · cases i with
    | zero =>
      obtain rfl : k = p := by simpa using hp
      rw [card_inCode_self, card_inCode_self]
    | succ i =>
      have hp : opened[i]? = some p := by simpa using hp
      have habove := h.above i p hp
      obtain ⟨hleft, hright⟩ := hstep p (h.lt hp)
      omega

theorem Stacked.pop (h : Stacked t rs left right k opened) (hne : left ≠ right)
    (hcode : isCode rs k = true)
    (hk : t[k]? = some right) : Stacked t rs left right (k + 1) opened.tail := by
  have hstep :
      ∀ p, p < k → (inCode t rs left (p + 1) (k + 1)).card = (inCode t rs left (p + 1) k).card ∧
      (inCode t rs right (p + 1) (k + 1)).card = (inCode t rs right (p + 1) k).card + 1 := by
    intro p hp
    rw [card_inCode_succ right (by omega), card_inCode_succ left (by omega)]
    simp [hcode, hk, hne.symm]
  refine ⟨fun p => ?_, h.descending.tail, fun i p hp => ?_⟩
  · rw [unclosed_succ_iff]
    constructor
    · intro hp
      obtain ⟨i, hi⟩ := List.mem_iff_getElem?.1 hp
      rw [List.getElem?_tail] at hi
      have habove := h.above (i + 1) p hi
      obtain ⟨hleft, hright⟩ := hstep p (h.lt hi)
      exact .inr ⟨(h.mem_iff p).1 (List.mem_of_getElem? hi), by omega⟩
    · rintro (⟨-, -, hleft⟩ | ⟨hp, hle⟩)
      · exact absurd (Option.some.inj (hleft.symm.trans hk)) hne
      · obtain ⟨i, hi⟩ := List.mem_iff_getElem?.1 ((h.mem_iff p).2 hp)
        have habove := h.above i p hi
        obtain ⟨hleft, hright⟩ := hstep p hp.lt
        cases i with
        | zero => omega
        | succ i => exact List.mem_iff_getElem?.2 ⟨i, by rwa [List.getElem?_tail]⟩
  · rw [List.getElem?_tail] at hp
    have habove := h.above (i + 1) p hp
    obtain ⟨hleft, hright⟩ := hstep p (h.lt hp)
    omega

theorem Stacked.pass (h : Stacked t rs left right k opened)
    (hnone : isCode rs k = true → t[k]? ≠ some left ∧ t[k]? ≠ some right) :
    Stacked t rs left right (k + 1) opened := by
  have hstep :
      ∀ p, p < k → (inCode t rs left (p + 1) (k + 1)).card = (inCode t rs left (p + 1) k).card ∧
      (inCode t rs right (p + 1) (k + 1)).card = (inCode t rs right (p + 1) k).card := by
    intro p hp
    rw [card_inCode_succ right (by omega), card_inCode_succ left (by omega)]
    rw [if_neg fun hk => (hnone hk.1).1 hk.2, if_neg fun hk => (hnone hk.1).2 hk.2]
    exact ⟨rfl, rfl⟩
  refine ⟨fun p => ?_, h.descending, fun i p hp => ?_⟩
  · rw [h.mem_iff, unclosed_succ_iff]
    constructor
    · intro hp
      have hle := hp.card_le
      obtain ⟨hleft, hright⟩ := hstep p hp.lt
      exact .inr ⟨hp, by omega⟩
    · rintro (⟨-, hcode, hleft⟩ | ⟨hp, -⟩)
      · exact absurd hleft (hnone hcode).1
      · exact hp
  · have habove := h.above i p hp
    obtain ⟨hleft, hright⟩ := hstep p (h.lt hp)
    omega

theorem Stacked.step (h : Stacked t rs left right k opened) (hne : left ≠ right) :
    Stacked t rs left right (k + 1)
      ((codeBracket t rs left right k).toList.foldl stepBlock opened) := by
  cases hcode : isCode rs k with
  | false =>
    rw [codeBracket, if_neg (by simp [hcode])]
    exact h.pass (by simp [hcode])
  | true =>
    rw [codeBracket, if_pos hcode, bracketHere]
    split
    · rename_i hleft
      exact h.push hne hcode hleft
    · rename_i hleft
      split
      · rename_i hright
        exact h.pop hne hcode hright
      · rename_i hright
        exact h.pass fun _ => ⟨hleft, hright⟩

theorem stacked_openBlocks (t : Text) (rs : List Region) (hne : left ≠ right) (k : Nat) :
    Stacked t rs left right k
      (openBlocks ((List.range k).filterMap (codeBracket t rs left right))) := by
  induction k with
  | zero => exact stacked_zero t rs left right
  | succ k ih =>
    have hlast : [k].filterMap (codeBracket t rs left right) =
        (codeBracket t rs left right k).toList := by
      cases hb : codeBracket t rs left right k <;> simp [hb]
    rw [List.range_succ, List.filterMap_append, hlast, openBlocks, List.foldl_append]
    exact ih.step hne

theorem Stacked.head?_eq_some_iff (h : Stacked t rs left right k opened) {p : Nat} :
    opened.head? = some p ↔ IsGreatest {p | Unclosed t rs left right k p} p := by
  have hset : {p | Unclosed t rs left right k p} = {p | p ∈ opened} :=
    Set.ext fun p => (h.mem_iff p).symm
  rw [hset]
  cases opened with
  | nil => simp [IsGreatest]
  | cons q rest =>
    have hgreatest : IsGreatest {p | p ∈ q :: rest} q := by
      refine ⟨List.mem_cons_self .., fun p hp => ?_⟩
      rcases List.mem_cons.1 hp with rfl | hp
      · exact le_rfl
      · exact le_of_lt ((List.pairwise_cons.1 h.descending).1 p hp)
    rw [List.head?_cons, Option.some.injEq]
    exact ⟨fun heq => heq ▸ hgreatest, hgreatest.unique⟩

theorem Stacked.head?_eq_none_iff (h : Stacked t rs left right k opened) :
    opened.head? = none ↔ ∀ p, ¬ Unclosed t rs left right k p := by
  rw [List.head?_eq_none_iff, List.eq_nil_iff_forall_not_mem]
  exact forall_congr' fun p => not_congr (h.mem_iff p)

theorem Reads.classAt_of_free (hr : m.Reads c) {T : LexemeTable}
    (hT : T ∈ m.dialect.tables) {w : String}
    (hw : w ∈ T.lexemes) {ch : Char} (hch : w.toList = [ch])
    (hfree : Edge.ofChar m.wordChars.toList ch = .free)
    (honly : ∀ T' ∈ m.dialect.tables, ∀ v ∈ T'.lexemes, ch ∈ v.toList → T' = T) {p : Nat}
    (hp : t[p]? = some ch) (hcode : isCode (c.regions t 0 t.size) p = true) :
    (Classification.ofRange m.compiled c t 0 t.size).classAt p = some T.cls := by
  have hsize : p < t.size := (Array.getElem?_eq_some_iff.1 hp).1
  have hcomp := hr.composited_ofRange (Nat.zero_le t.size) (Nat.le_refl _)
  have hclaimant : m.claimant t 0 t.size p = some (T.compile m.wordChars) := by
    have hclaim := CompiledTable.claims_of_free hw hch hfree hp
    refine claimant_eq_some (List.mem_map_of_mem hT) hclaim fun C hC hclaims => ?_
    obtain ⟨T', hT', rfl⟩ := List.mem_map.1 hC
    obtain ⟨v, hv, hmem⟩ := CompiledTable.exists_lexeme_of_claims hclaims hp
    rw [honly T' hT' v hv hmem]
  have htable := hcomp.table p ⟨Int.natCast_nonneg p, Int.ofNat_lt.2 hsize⟩ (isCode_eq_true.1 hcode)
  exact htable.trans (congrArg (Option.map CompiledTable.cls) hclaimant)

theorem bracketed_orson : Mode.orson.Bracketed '(' ')' where
  blockOpen := by decide
  blockClose := by decide
  ne := by decide

theorem classAt_opener_orson (hr : Mode.orson.Reads c) {p : Nat} (hp : t[p]? = some '(')
    (hcode : isCode (c.regions t 0 t.size) p = true) :
    (Classification.ofRange Mode.orson.compiled c t 0 t.size).classAt p = some .operator := by
  have honly : ∀ T ∈ Dialect.orson.tables, ∀ v ∈ T.lexemes, '(' ∈ v.toList →
      T = Dialect.orson.table .operators := by
    decide +kernel
  exact hr.classAt_of_free (T := Dialect.orson.table .operators) (by decide +kernel) (w := "(")
    (by decide +kernel) (by decide) (by decide +kernel) honly hp hcode

theorem Bracketed.of_config (hb : m.Bracketed left right) {config : Toml.Entries} {m' : Mode}
    (h : Config.mode config m = .ok m') : m'.Bracketed left right := by
  obtain ⟨d, -, h⟩ := bind_eq_ok_iff.1 h
  obtain ⟨entries, -, h⟩ := bind_eq_ok_iff.1 h
  obtain ⟨s, -, h⟩ := bind_eq_ok_iff.1 h
  obtain rfl := Except.ok.inj h
  exact ⟨hb.blockOpen, hb.blockClose, hb.ne⟩

/-- The answer is the last opener in code that is not closed before the offset, or none where there
is no such opener. -/
theorem enclosingBlock_innermost (hm : m.Scannable) (hb : m.Bracketed left right)
    (t : Text) (offset : Int) :
    ∃ rs answer, ∃ k : Nat, m.conventions?.map (·.scan t 0 none) = some rs ∧
      (k : Int) = max 0 (min offset t.size) ∧ m.enclosingBlock t offset = some answer ∧
      (∀ p, answer = some p ↔ IsGreatest {p | Unclosed t rs left right k p} p) ∧
      (answer = none ↔ ∀ p, ¬ Unclosed t rs left right k p) ∧
      (m = Mode.orson → ∀ p, answer = some p →
        ∃ r, m.classify t 0 none = some r ∧ r.classAt p = some .operator) ∧
      ∀ config m', Config.mode config m = .ok m' → m'.Bracketed left right := by
  obtain ⟨c, hr⟩ := hm.exists_reads
  have hk : min offset.toNat t.size ≤ t.size := Nat.min_le_right _ _
  have hstack := stacked_openBlocks t (c.regions t 0 t.size) hb.ne (min offset.toNat t.size)
  rw [← hb.openBlocksBefore_eq hr.advances hk] at hstack
  refine ⟨c.regions t 0 t.size, _, min offset.toNat t.size, ?_, by omega, ?_,
    fun p => hstack.head?_eq_some_iff, hstack.head?_eq_none_iff, ?_,
    fun config m' h => hb.of_config h⟩
  · rw [hr.conventions, Option.map_some, Conventions.scan_eq_regions]
    rfl
  · simp only [enclosingBlock, regionsBefore, hr.conventions, Option.map_some]
  · rintro rfl p hp
    obtain rfl : left = '(' := by simpa using hb.blockOpen.symm.trans bracketed_orson.blockOpen
    have hp := (hstack.head?_eq_some_iff.1 hp).1
    exact ⟨_, hr.classify_whole t, classAt_opener_orson hr hp.opener hp.code⟩

theorem enclosingBlock_innermost_past_string :
    Mode.orson.Scannable ∧ Mode.orson.Bracketed '(' ')' ∧
      Mode.orson.enclosingBlock (Text.ofString "( ''('' ( ) x") 99 = some (some 0) ∧
      IsGreatest
        {p | Unclosed (Text.ofString "( ''('' ( ) x") [⟨.string, 2, 6, true⟩] '(' ')' 13 p} 0 ∧
      ∃ r, Mode.orson.classify (Text.ofString "( ''('' ( ) x") 0 none = some r ∧
      r.classAt 0 = some .operator := by
  obtain ⟨rs, answer, k, hrs, hk, hanswer, hsome, -, hclass, -⟩ :=
    enclosingBlock_innermost scannable_orson bracketed_orson (Text.ofString "( ''('' ( ) x") 99
  have hvalue : Mode.orson.enclosingBlock (Text.ofString "( ''('' ( ) x") 99 = some (some 0) := by
    decide +kernel
  have hscan : Mode.orson.conventions?.map (·.scan (Text.ofString "( ''('' ( ) x") 0 none) =
      some [⟨.string, 2, 6, true⟩] := by decide +kernel
  have hsize : (Text.ofString "( ''('' ( ) x").size = 13 := by decide +kernel
  obtain rfl := Option.some.inj (hrs.symm.trans hscan)
  obtain rfl := Option.some.inj (hanswer.symm.trans hvalue)
  obtain rfl : k = 13 := by rw [hsize] at hk; omega
  exact ⟨scannable_orson, bracketed_orson, hvalue, (hsome 0).1 rfl, hclass rfl 0 rfl⟩

end Mode

end OrsonHighlight
