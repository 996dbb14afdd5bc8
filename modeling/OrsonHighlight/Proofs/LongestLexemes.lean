import OrsonHighlight.Proofs.WrittenPatterns

/-!
Matching as it is meant: at the leftmost place where a lexeme stands with neither neighbour going on
with it, the longest such lexeme is taken, and matching goes on behind it. What is found depends on
the lexemes alone, in whatever order the table has them.
-/

set_option autoImplicit false

namespace OrsonHighlight

theorem rel_of_find?_eq_some {α : Type} {R : α → α → Prop} {f : α → Bool} {xs : List α}
    (hp : xs.Pairwise R)
    {x y : α} (hx : xs.find? f = some x) (hy : y ∈ xs) (hfy : f y = true) : x = y ∨ R x y := by
  obtain ⟨-, before, after, rfl, hbefore⟩ := List.find?_eq_some_iff_append.1 hx
  obtain ⟨-, hrest, -⟩ := List.pairwise_append.1 hp
  rcases List.mem_append.1 hy with hy | hy
  · exact absurd hfy (by simpa using hbefore y hy)
  · rcases List.mem_cons.1 hy with rfl | hy
    · exact .inl rfl
    · exact .inr ((List.pairwise_cons.1 hrest).1 y hy)

namespace LexemeTable

theorem precedes_iff {v w : String} :
    precedes v w = true ↔ w.length < v.length ∨ v.length = w.length ∧ v < w := by
  simp [precedes]

theorem precedes_of_not {v w : String} (hne : v ≠ w) (h : ¬ precedes v w = true) :
    precedes w v = true := by
  rw [precedes_iff] at h ⊢
  rcases Nat.lt_trichotomy v.length w.length with hlt | heq | hlt
  · exact .inl hlt
  · have hle : w ≤ v := String.not_lt.1 fun hlt => h (.inr ⟨heq, hlt⟩)
    exact .inr ⟨heq.symm, Std.lt_of_le_of_ne hle hne.symm⟩
  · exact absurd (.inl hlt) h

theorem precedes_trans {u v w : String} (huv : precedes u v = true) (hvw : precedes v w = true) :
    precedes u w = true := by
  rw [precedes_iff] at huv hvw ⊢
  rcases huv with huv | ⟨huv, hlt⟩
  · rcases hvw with hvw | ⟨hvw, -⟩ <;> exact .inl (by omega)
  · rcases hvw with hvw | ⟨hvw, hlt'⟩
    · exact .inl (by omega)
    · exact .inr ⟨huv.trans hvw, String.lt_trans hlt hlt'⟩

theorem pairwise_insertLexeme {w : String} {ws : List String} (hw : w ∉ ws)
    (h : ws.Pairwise fun v w => precedes v w = true) :
    (insertLexeme w ws).Pairwise fun v w => precedes v w = true := by
  induction ws with
  | nil => simp [insertLexeme]
  | cons v rest ih =>
    obtain ⟨hv, hrest⟩ := List.pairwise_cons.1 h
    obtain ⟨hne, hnotin⟩ := not_or.1 (mt List.mem_cons.2 hw)
    rw [insertLexeme]
    split
    · rename_i hprec
      refine List.pairwise_cons.2 ⟨fun u hu => ?_, ih hnotin hrest⟩
      rcases mem_insertLexeme.1 hu with rfl | hu
      · exact hprec
      · exact hv u hu
    · rename_i hprec
      have hwv : precedes w v = true := precedes_of_not (Ne.symm hne) hprec
      refine List.pairwise_cons.2 ⟨fun u hu => ?_, h⟩
      rcases List.mem_cons.1 hu with rfl | hu
      · exact hwv
      · exact precedes_trans hwv (hv u hu)

theorem pairwise_longestFirst (T : LexemeTable) :
    T.longestFirst.Pairwise fun v w => precedes v w = true := by
  obtain ⟨name, cls, lexemes, distinct⟩ := T
  show (lexemes.foldr insertLexeme []).Pairwise _
  induction lexemes with
  | nil => exact List.Pairwise.nil
  | cons w rest ih =>
    obtain ⟨hw, hrest⟩ := List.nodup_cons.1 distinct
    have hnew : w ∉ rest.foldr insertLexeme [] :=
      mt (mem_longestFirst (T := ⟨name, cls, rest, hrest⟩)).1 hw
    exact pairwise_insertLexeme hnew (ih hrest)

theorem length_of_ofWord? {wordChars : List Char} {w : String} {g : GuardedLexeme}
    (hg : GuardedLexeme.ofWord? wordChars w = some g) : g.length = w.length := by
  rw [GuardedLexeme.length, (GuardedLexeme.ofWord?_eq_some.1 hg).1, String.length_toList]

theorem pairwise_alternatives (T : LexemeTable) (wordChars : String) :
    (T.pattern wordChars).alternatives.Pairwise fun g g' => g'.length ≤ g.length := by
  refine List.pairwise_filterMap.2 (T.pairwise_longestFirst.imp fun {v v'} hprec g hg g' hg' => ?_)
  rw [length_of_ofWord? hg, length_of_ofWord? hg']
  rcases precedes_iff.1 hprec with hlt | ⟨heq, -⟩
  · exact Nat.le_of_lt hlt
  · exact Nat.le_of_eq heq.symm

theorem exists_matchAt {T : LexemeTable} {wordChars w : String} {g : GuardedLexeme}
    {t : Text} {p : Nat}
    (hw : w ∈ T.lexemes) (hg : GuardedLexeme.ofWord? wordChars.toList w = some g)
    (hmatch : g.matchesAt wordChars.toList t p = true) :
    ∃ n, (T.pattern wordChars).matchAt t p = some n ∧ g.length ≤ n := by
  have halt : g ∈ (T.pattern wordChars).alternatives := mem_alternatives.2 ⟨w, hw, hg⟩
  cases hfind : (T.pattern wordChars).alternatives.find? (·.matchesAt wordChars.toList t p) with
  | none => exact absurd hmatch (List.find?_eq_none.1 hfind g halt)
  | some g' =>
    refine ⟨g'.length, congrArg (Option.map GuardedLexeme.length) hfind, ?_⟩
    rcases rel_of_find?_eq_some (T.pairwise_alternatives wordChars) hfind halt hmatch with rfl | hle
    · exact Nat.le_refl _
    · exact hle

end LexemeTable

/-- The character `d` does not go on with what has `c` at its edge: after a word character no other
may come, and after a symbol no symbol that is not a word character. -/
def StandsApart (wordChars : String) (c d : Char) : Prop :=
  if isWordChar wordChars.toList c then isWordChar wordChars.toList d = false
  else if isSymbolChar c then ¬ (isSymbolChar d = true ∧ d ∉ wordChars.toList)
  else True

/-- The word stands at `p`, and neither neighbour in the whole text goes on with it. -/
structure GuardedAt (wordChars : String) (t : Text) (p : Nat) (w : String) : Prop where
  stands : t.slice p (p + w.length) = w.toList
  before : ∀ c d, w.toList.head? = some c → 0 < p → t[p - 1]? = some d → StandsApart wordChars c d
  after : ∀ c d, w.toList.getLast? = some c → t[p + w.length]? = some d → StandsApart wordChars c d

theorem Edge.admits_iff_standsApart {wordChars : String} {c : Char} {neighbour : Option Char} :
    (Edge.ofChar wordChars.toList c).admits wordChars.toList neighbour = true ↔
      ∀ d, neighbour = some d → StandsApart wordChars c d := by
  cases neighbour with
  | none => simp
  | some d =>
    unfold Edge.ofChar StandsApart
    by_cases hw : isWordChar wordChars.toList c = true
    · simp [hw, Edge.admits, Edge.bars]
    · by_cases hs : isSymbolChar c = true
      · by_cases hd : isSymbolChar d = true <;> simp [hw, hs, hd, Edge.admits, Edge.bars]
      · simp [hw, hs, Edge.admits, Edge.bars]

theorem GuardedLexeme.matchesAt_iff_guardedAt {wordChars w : String} {g : GuardedLexeme}
    {t : Text} {p : Nat} (hg : ofWord? wordChars.toList w = some g) :
    g.matchesAt wordChars.toList t p = true ↔ GuardedAt wordChars t p w := by
  have hlength := LexemeTable.length_of_ofWord? hg
  obtain ⟨hchars, hbefore, hafter⟩ := ofWord?_eq_some.1 hg
  have hhead : w.toList.head? = some g.first := by rw [← hchars]; rfl
  have hlast : w.toList.getLast? = some (g.chars.getLast g.chars_ne_nil) := by
    rw [← hchars, List.getLast?_eq_getLast_of_ne_nil]
  have hoccurs : t.occursAt p g.chars = true ↔ t.slice p (p + w.length) = w.toList := by
    rw [Text.occursAt_iff_slice, hchars, String.length_toList]
  simp only [matchesAt, Bool.and_eq_true, Bool.or_eq_true, beq_iff_eq, hbefore, hafter,
    Edge.admits_iff_standsApart, hlength, hoccurs]
  constructor
  · rintro ⟨⟨hstands, hleft⟩, hright⟩
    refine ⟨hstands, fun c d hc hp hd => ?_, fun c d hc hd => ?_⟩
    · obtain rfl := Option.some.inj (hhead.symm.trans hc)
      rcases hleft with hzero | hleft
      · omega
      · exact hleft d hd
    · obtain rfl := Option.some.inj (hlast.symm.trans hc)
      exact hright d hd
  · intro h
    refine ⟨⟨h.stands, ?_⟩, fun d hd => h.after _ d hlast hd⟩
    by_cases hp : p = 0
    · exact .inl hp
    · exact .inr fun d hd => h.before _ d hhead (by omega) hd

structure LongestAt (words : Set String) (wordChars : String) (t : Text) (p : Nat) (w : String) :
    Prop where
  mem : w ∈ words
  guarded : GuardedAt wordChars t p w
  longest : ∀ v ∈ words, GuardedAt wordChars t p v → v.length ≤ w.length

theorem LongestAt.unique {words : Set String} {wordChars v w : String} {t : Text} {p : Nat}
    (hv : LongestAt words wordChars t p v) (hw : LongestAt words wordChars t p w) : v = w := by
  have hlength : v.length = w.length :=
    Nat.le_antisymm (hw.longest v hv.mem hv.guarded) (hv.longest w hw.mem hw.guarded)
  have hchars : v.toList = w.toList := by rw [← hv.guarded.stands, ← hw.guarded.stands, hlength]
  exact String.toList_inj.1 hchars

def NoneBetween (words : Set String) (wordChars : String) (t : Text) (p : Nat)
    (stop : Int) : Prop :=
  ∀ q : Nat, p ≤ q → (q : Int) < stop → ∀ v ∈ words, ¬ GuardedAt wordChars t q v

/-- The matches from `p` on of a set of words, each at the first place where there is one and as
long as can be. They begin before `stop` and are cut there. -/
inductive LeftmostLongest (words : Set String) (cls : TokenClass) (wordChars : String)
    (t : Text) (stop : Int) :
    Nat → List Span → Prop where
  | done {p : Nat} : NoneBetween words wordChars t p stop →
      LeftmostLongest words cls wordChars t stop p []
  | next {p q : Nat} {w : String} {rest : List Span} : p ≤ q → (q : Int) < stop →
      NoneBetween words wordChars t p q → LongestAt words wordChars t q w →
      LeftmostLongest words cls wordChars t stop (q + w.length) rest →
      LeftmostLongest words cls wordChars t stop p (⟨q, min (q + w.length : Nat) stop, cls⟩ :: rest)

namespace LeftmostLongest

variable {words : Set String} {cls : TokenClass} {wordChars : String} {t : Text}
    {stop : Int} {p : Nat}

theorem unique {ss ss' : List Span} (h : LeftmostLongest words cls wordChars t stop p ss)
    (h' : LeftmostLongest words cls wordChars t stop p ss') : ss = ss' := by
  induction h generalizing ss' with
  | done hnone =>
    cases h' with
    | done => rfl
    | next hpq hq _ hw _ => exact absurd hw.guarded (hnone _ hpq hq _ hw.mem)
  | @next p q w rest hpq hq hnone hw _ ih =>
    cases h' with
    | done hnone' => exact absurd hw.guarded (hnone' q hpq hq w hw.mem)
    | @next _ q' w' rest' hpq' hq' hnone' hw' htail =>
      -- neither place can come before the other, for there is nothing before either
      have hle : ¬ q' < q := fun hlt => hnone q' hpq' (by omega) w' hw'.mem hw'.guarded
      have hle' : ¬ q < q' := fun hlt => hnone' q hpq (by omega) w hw.mem hw.guarded
      obtain rfl : q = q' := by omega
      obtain rfl := hw.unique hw'
      rw [ih htail]

theorem of_none {ss : List Span} (hp : ∀ v ∈ words, ¬ GuardedAt wordChars t p v)
    (h : LeftmostLongest words cls wordChars t stop (p + 1) ss) :
    LeftmostLongest words cls wordChars t stop p ss := by
  have widen : ∀ {e : Int}, NoneBetween words wordChars t (p + 1) e →
      NoneBetween words wordChars t p e := by
    intro e hnone q hpq hqe
    rcases Nat.eq_or_lt_of_le hpq with rfl | hlt
    · exact hp
    · exact hnone q hlt hqe
  cases h with
  | done hnone => exact .done (widen hnone)
  | next hpq hq hnone hw htail => exact .next (by omega) hq (widen hnone) hw htail

end LeftmostLongest

namespace LexemeTable

variable {T : LexemeTable} {wordChars : String} {t : Text} {p : Nat}

def words (T : LexemeTable) : Set String := {w | w ∈ T.lexemes ∧ w ≠ ""}

theorem exists_ofWord?_of_mem (wordChars : String) {w : String} (hw : w ∈ T.words) :
    ∃ g, GuardedLexeme.ofWord? wordChars.toList w = some g :=
  GuardedLexeme.exists_ofWord? fun hnil => hw.2 (String.toList_eq_nil_iff.1 hnil)

theorem mem_words_of_ofWord? {w : String} {g : GuardedLexeme} (hw : w ∈ T.lexemes)
    (hg : GuardedLexeme.ofWord? wordChars.toList w = some g) : w ∈ T.words := by
  refine ⟨hw, fun hempty => g.chars_ne_nil ?_⟩
  rw [(GuardedLexeme.ofWord?_eq_some.1 hg).1, hempty]
  rfl

theorem length_pos_of_mem_words {w : String} (hw : w ∈ T.words) : 0 < w.length :=
  Nat.pos_of_ne_zero fun hzero => hw.2 (String.length_eq_zero_iff.1 hzero)

theorem lt_size_of_guardedAt {w : String} (hw : w ∈ T.words) (h : GuardedAt wordChars t p w) :
    p < t.size := by
  have hpos := length_pos_of_mem_words hw
  have hlength := congrArg List.length h.stands
  rw [Text.slice, String.length_toList, Array.length_toList, Array.size_extract] at hlength
  omega

theorem matchAt_eq_none_iff : (T.pattern wordChars).matchAt t p = none ↔
    ∀ w ∈ T.words, ¬ GuardedAt wordChars t p w := by
  constructor
  · intro hnone w hw hguarded
    obtain ⟨g, hg⟩ := exists_ofWord?_of_mem wordChars hw
    obtain ⟨n, hn, -⟩ :=
      exists_matchAt hw.1 hg ((GuardedLexeme.matchesAt_iff_guardedAt hg).2 hguarded)
    rw [hnone] at hn
    simp at hn
  · intro hnone
    by_contra hne
    obtain ⟨g, halt, hmatch⟩ := Pattern.matchAt_ne_none.1 hne
    obtain ⟨w, hw, hg⟩ := mem_alternatives.1 halt
    exact hnone w (mem_words_of_ofWord? hw hg) ((GuardedLexeme.matchesAt_iff_guardedAt hg).1 hmatch)

theorem exists_longestAt {n : Nat} (h : (T.pattern wordChars).matchAt t p = some n) :
    ∃ w, LongestAt T.words wordChars t p w ∧ w.length = n := by
  obtain ⟨g, halt, hmatch, hn⟩ := Pattern.matchAt_eq_some h
  obtain ⟨w, hw, hg⟩ := mem_alternatives.1 halt
  refine ⟨w, ⟨mem_words_of_ofWord? hw hg, (GuardedLexeme.matchesAt_iff_guardedAt hg).1 hmatch,
    fun v hv hguarded => ?_⟩, (length_of_ofWord? hg).symm.trans hn⟩
  obtain ⟨g', hg'⟩ := exists_ofWord?_of_mem wordChars hv
  obtain ⟨n', hn', hle⟩ :=
    exists_matchAt hv.1 hg' ((GuardedLexeme.matchesAt_iff_guardedAt hg').2 hguarded)
  obtain rfl := Option.some.inj (h.symm.trans hn')
  rw [← length_of_ofWord? hg', ← length_of_ofWord? hg, hn]
  exact hle

/-- The sweep of the pattern finds at each place what is meant to match there. -/
theorem leftmostLongest_sweep (T : LexemeTable) (wordChars : String) (t : Text)
    (stop : Int) (p : Nat) :
    LeftmostLongest T.words T.cls wordChars t stop p
      ((Text.sweep ((T.pattern wordChars).step t) p (min stop.toNat t.size)).map
        fun m => ⟨m.1, min m.2 stop, T.cls⟩) := by
  fun_induction Text.sweep ((T.pattern wordChars).step t) p (min stop.toNat t.size) with
  | case1 p hp hstep ih => exact ih.of_none (matchAt_eq_none_iff.1 (Option.map_eq_none_iff.1 hstep))
  | case2 p hp m next hstep ih =>
    obtain ⟨n, hn, rfl, rfl⟩ := Pattern.step_eq_some.1 hstep
    obtain ⟨w, hw, rfl⟩ := exists_longestAt hn
    have hpos := length_pos_of_mem_words hw.mem
    rw [Nat.max_eq_left (by omega)] at ih ⊢
    exact .next (Nat.le_refl p) (by omega) (fun q hq hq' => by omega) hw ih
  | case3 p hp =>
    refine .done fun q hpq hq w hw hguarded => ?_
    have hlt := lt_size_of_guardedAt hw hguarded
    omega

theorem leftmostLongest_scan (T : LexemeTable) (wordChars : String) (t : Text) (start stop : Int) :
    LeftmostLongest T.words T.cls wordChars t stop (max 0 start).toNat
      ((T.compile wordChars).scan t start stop) := by
  rw [show (max 0 start).toNat = start.toNat by omega]
  exact T.leftmostLongest_sweep wordChars t stop start.toNat

theorem scan_eq_leftmostLongest (T : LexemeTable) (wordChars : String) (t : Text)
    (start stop : Int) :
    (T.pattern wordChars).WrittenAs (.ofPattern (T.pattern wordChars)) ∧
    (∀ ss, LeftmostLongest T.words T.cls wordChars t stop (max 0 start).toNat ss ↔
      ss = (T.compile wordChars).scan t start stop) ∧
    ∀ T' : LexemeTable, T'.words = T.words → T'.cls = T.cls →
      (T'.compile wordChars).scan t start stop = (T.compile wordChars).scan t start stop := by
  have hscan := T.leftmostLongest_scan wordChars t start stop
  refine ⟨T.pattern_writtenAs wordChars, fun ss => ⟨fun h => h.unique hscan, fun h => h ▸ hscan⟩,
    fun T' hwords hcls => ?_⟩
  have hscan' := T'.leftmostLongest_scan wordChars t start stop
  rw [hwords, hcls] at hscan'
  exact hscan'.unique hscan

example : ((⟨"t", .plainName, ["a", "a+", ""], by decide⟩ : LexemeTable).compile "_").scan
    (Text.ofString "a+- a+") (-1) 5 = [⟨0, 1, .plainName⟩, ⟨4, 5, .plainName⟩] := by decide +kernel

end LexemeTable

end OrsonHighlight
