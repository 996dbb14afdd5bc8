import OrsonHighlight.Proofs.Compositing
import OrsonHighlight.Proofs.TextRuns

/-!
Where every lexeme is of one kind of character, the tables come to a tokenizer that reads maximal
runs: a run outside strings and comments that is a lexeme is one span of the last table that has it,
and no other run shows.
-/

set_option autoImplicit false

namespace OrsonHighlight

/-- All characters of the word are word characters, or all are symbol characters that are not, or
none is either. -/
def Homogeneous (wordChars : List Char) (w : List Char) : Prop :=
  ∃ e, ∀ ch ∈ w, Edge.ofChar wordChars ch = e

theorem homogeneous_iff {wordChars w : List Char} : Homogeneous wordChars w ↔
    ([Edge.word, .symbol, .free].any fun e => w.all (Edge.ofChar wordChars · == e)) = true := by
  simp only [List.any_eq_true, List.all_eq_true, beq_iff_eq]
  constructor
  · rintro ⟨e, he⟩
    exact ⟨e, by cases e <;> simp, he⟩
  · rintro ⟨e, -, he⟩
    exact ⟨e, he⟩

instance (wordChars w : List Char) : Decidable (Homogeneous wordChars w) :=
  decidable_of_iff' _ homogeneous_iff

theorem Edge.admits_iff {wordChars : List Char} {t : Text} {k : Edge} (hk : k ≠ .free) {i : Nat} :
    k.admits wordChars t[i]? = true ↔ t.kindAt wordChars i ≠ some k := by
  rw [ne_eq, Text.kindAt_eq_some]
  cases hget : t[i]? with
  | none => simp
  | some ch => simp [admits, ← Bool.not_eq_true, Edge.bars_iff hk, hk]

/-- A guarded lexeme of one kind of character matches where it stands as a whole run. -/
theorem GuardedLexeme.matchesAt_iff {wordChars : List Char} {g : GuardedLexeme}
    {t : Text} {k : Edge} (hk : k ≠ .free) (hbefore : g.before = k) (hafter : g.after = k)
    (hchars : ∀ ch ∈ g.chars, Edge.ofChar wordChars ch = k) {p : Nat} :
    g.matchesAt wordChars t p = true ↔
      t.slice p (p + g.length) = g.chars ∧ IsRun (t.kindAt wordChars) k p (p + g.length : Nat) := by
  have hlength : g.chars.length = g.length := rfl
  simp only [matchesAt, Bool.and_eq_true, Bool.or_eq_true, beq_iff_eq, hbefore, hafter,
    Edge.admits_iff hk, Text.occursAt_iff_slice, hlength]
  have hpos := g.length_pos
  constructor
  · rintro ⟨⟨hslice, hleft⟩, hright⟩
    refine ⟨hslice, by omega, fun o hpo hoq => ?_, fun hk' => ?_, hright⟩
    · have hsize : p + g.length ≤ t.size :=
        Text.le_size_of_occursAt g.chars_ne_nil (Text.occursAt_iff_slice.2 hslice)
      have hget : t[o.toNat]? = some t[o.toNat] := Array.getElem?_eq_getElem (by omega)
      have hmem : t[o.toNat] ∈ t.slice p (p + g.length) :=
        Text.mem_slice.2 ⟨o.toNat, by omega, by omega, hget⟩
      rw [hslice] at hmem
      rw [show o = ((o.toNat : Nat) : Int) by omega]
      exact Text.kindAt_eq_some.2 ⟨_, hget, hchars _ hmem, hk⟩
    · have hp : 0 ≤ (p : Int) - 1 := (Text.bounded_kindAt wordChars t _ (by simp [hk'])).1
      rw [show (p : Int) - 1 = ((p - 1 : Nat) : Int) by omega] at hk'
      rcases hleft with hzero | hleft
      · omega
      · exact hleft hk'
  · rintro ⟨hslice, hr⟩
    refine ⟨⟨hslice, ?_⟩, hr.right⟩
    by_cases hp : p = 0
    · exact .inl hp
    · have hleft := hr.left
      rw [show (p : Int) - 1 = ((p - 1 : Nat) : Int) by omega] at hleft
      exact .inr hleft

namespace CompiledTable

variable {wordChars : String} {T : LexemeTable} {t : Text}

theorem isRun_of_mem_hits (hT : ∀ w ∈ T.lexemes, Homogeneous wordChars.toList w.toList) {a b : Nat}
    {m : Nat × Nat} (hm : m ∈ (T.compile wordChars).pattern.hits t a b) {o : Nat} {k : Edge}
    (ho : m.1 ≤ o ∧ o < m.2) (hk : t.kindAt wordChars.toList o = some k) :
    IsRun (t.kindAt wordChars.toList) k m.1 m.2 ∧
      T.contains (String.ofList (t.slice m.1 m.2)) = true := by
  obtain ⟨-, -, -, g, hg, hmatch, hend⟩ := Pattern.mem_hits hm
  obtain ⟨w, hw, hword⟩ := LexemeTable.mem_alternatives.1 hg
  obtain ⟨hchars, hbefore, hafter⟩ := GuardedLexeme.ofWord?_eq_some.1 hword
  obtain ⟨e, he⟩ := hT w hw
  rw [← hchars] at he
  have hslice := GuardedLexeme.slice_of_matchesAt hmatch
  -- the one kind of the lexeme is that of the offset, so it joins
  obtain ⟨ch, hget, hof, hne⟩ := Text.kindAt_eq_some.1 hk
  have hek : e = k := (he ch (hslice ▸ Text.mem_slice.2 ⟨o, ho.1, by omega, hget⟩)).symm.trans hof
  subst hek
  rw [hend]
  refine ⟨((GuardedLexeme.matchesAt_iff hne (hbefore.trans (he _ (List.mem_cons_self ..)))
    (hafter.trans (he _ (List.getLast_mem _))) he).1 hmatch).2, ?_⟩
  rw [hslice, hchars, String.ofList_toList]
  simpa [LexemeTable.contains] using hw

theorem mem_hits_of_isRun (hT : ∀ w ∈ T.lexemes, Homogeneous wordChars.toList w.toList)
    {k : Edge} {p q : Nat}
    (hr : IsRun (t.kindAt wordChars.toList) k p q)
    (hw : T.contains (String.ofList (t.slice p q)) = true) :
    (p, q) ∈ (T.compile wordChars).pattern.hits t 0 t.size := by
  obtain ⟨-, hlt, hq⟩ := hr.bounds (Text.bounded_kindAt wordChars.toList t)
  obtain ⟨chp, hchp, -, hne⟩ := Text.kindAt_eq_some.1 (hr.mark p (Int.le_refl _) hlt)
  have hlen : (t.slice p q).length = q - p := by
    simp [Text.slice]
    omega
  obtain ⟨g, hg⟩ :
    ∃ g, GuardedLexeme.ofWord? wordChars.toList (String.ofList (t.slice p q)) = some g :=
    GuardedLexeme.exists_ofWord? (by rw [String.toList_ofList, ← List.length_pos_iff]; omega)
  obtain ⟨hchars, hbefore, hafter⟩ := GuardedLexeme.ofWord?_eq_some.1 hg
  rw [String.toList_ofList] at hchars
  have hend : p + g.length = q := by
    rw [GuardedLexeme.length, hchars, hlen]
    omega
  have hkind : ∀ ch ∈ g.chars, Edge.ofChar wordChars.toList ch = k := by
    intro ch hch
    rw [hchars] at hch
    obtain ⟨o, hpo, hoq, hget⟩ := Text.mem_slice.1 hch
    obtain ⟨ch', hget', hof, -⟩ := Text.kindAt_eq_some.1 (hr.mark o (by omega) (by omega))
    rw [hget, Option.some.injEq] at hget'
    rw [hget', hof]
  have hmatch : g.matchesAt wordChars.toList t p = true :=
    (GuardedLexeme.matchesAt_iff hne (hbefore.trans (hkind _ (List.mem_cons_self ..)))
      (hafter.trans (hkind _ (List.getLast_mem _))) hkind).2 ⟨by rw [hend, hchars], by rwa [hend]⟩
  have hstep : (T.compile wordChars).pattern.step t p ≠ none := by
    have halt := LexemeTable.mem_alternatives.2 ⟨_, by simpa [LexemeTable.contains] using hw, hg⟩
    have hsome := Pattern.matchAt_ne_none.2 ⟨g, halt, hmatch⟩
    simpa [Pattern.step, LexemeTable.compile] using hsome
  -- the match that the reading has at `p` is of the same kind, so it is the run itself
  obtain ⟨m, hm, hl, hu⟩ := (Pattern.places_step _ t).exists_mem_sweep (Nat.zero_le p)
    (by omega : p < min t.size t.size) hstep
  obtain ⟨hr', -⟩ := isRun_of_mem_hits hT hm ⟨hl, hu⟩ (hr.mark p (Int.le_refl _) hlt)
  obtain ⟨-, h1, h2⟩ := hr.eq_of_mem hr' (Int.le_refl _) hlt (by omega) (by omega)
  rwa [show (p, q) = m from Prod.ext (by simp; omega) (by simp; omega)]

end CompiledTable

namespace Mode

variable {m : Mode} {t : Text}

/-- Lexemes are of one kind of character each, and what opens or ends strings and comments is of no
kind. -/
structure RunLexed (m : Mode) : Prop where
  scannable : m.Scannable
  lexemes : ∀ T ∈ m.dialect.tables, ∀ w ∈ T.lexemes, Homogeneous m.wordChars.toList w.toList
  separators : ∀ ch ∈ m.commentStart.toList ++ m.stringDelimiter.toList ++ ['\n', '\r'],
    Edge.ofChar m.wordChars.toList ch = .free

theorem RunLexed.kindAt_eq_none (hm : m.RunLexed) {o : Nat} {ch : Char} (hch : t[o]? = some ch)
    (hsep : ch ∈ m.commentStart.toList ++ m.stringDelimiter.toList ++ ['\n', '\r']) :
    t.kindAt m.wordChars.toList o = none := by
  rw [Text.kindAt_natCast, hch, Option.bind_some, hm.separators ch hsep]
  rfl

theorem RunLexed.kindAt_of_comment (hm : m.RunLexed) {c : Conventions} (hc : m.Reads c) {p : Nat}
    (h : t.occursAt p c.comment = true) : t.kindAt m.wordChars.toList p = none := by
  obtain ⟨ch, rest, hcr⟩ := List.exists_cons_of_ne_nil hc.advances.comment_ne_nil
  rw [hcr, Text.occursAt_cons, Bool.and_eq_true, beq_iff_eq] at h
  exact hm.kindAt_eq_none h.1 (by simp [← hc.comment, hcr])

theorem RunLexed.kindAt_of_delimiter (hm : m.RunLexed) {c : Conventions}
    (hc : m.Reads c) {p i : Nat}
    (h : t.occursAt p c.delimiter = true) (hpi : p ≤ i) (hi : i < p + c.width) :
    t.kindAt m.wordChars.toList i = none := by
  have hlt : i < t.size := Nat.lt_of_lt_of_le hi (Conventions.add_width_le_size h)
  have hget : t[i]? = some t[i] := Array.getElem?_eq_getElem hlt
  have hin : t[i] ∈ t.slice p (p + c.delimiter.length) := Text.mem_slice.2 ⟨i, hpi, hi, hget⟩
  rw [Text.occursAt_iff_slice.1 h, hc.delimiter] at hin
  exact hm.kindAt_eq_none hget (by simp [hin])

theorem RunLexed.kindAt_of_lineEndsAt (hm : m.RunLexed) {e : Nat} (h : Conventions.LineEndsAt t e) :
    t.kindAt m.wordChars.toList e = none := by
  rcases h with rfl | ⟨ch, hch, hend⟩
  · by_contra hne
    have hlt := (Text.bounded_kindAt _ t _ hne).2
    omega
  · refine hm.kindAt_eq_none hch ?_
    simp only [isLineEnd, Bool.or_eq_true, beq_iff_eq] at hend
    rcases hend with rfl | rfl <;> simp

theorem RunLexed.apart_or_inside (hm : m.RunLexed) {c : Conventions} (hc : m.Reads c) {r : Region}
    (hreg : c.IsRegion t r) {k : Edge} {x y : Int}
    (hr : IsRun (t.kindAt m.wordChars.toList) k x y) :
    (y ≤ r.opening ∨ r.stop ≤ x) ∨ (r.opening ≤ x ∧ y ≤ r.stop) := by
  have hpos := c.width_pos
  have hxy := hr.lt
  -- a separator stands at the opening and another at the end or just before it
  cases hreg with
  | @comment p e hocc hlt _ _ hend =>
    have h1 := hr.not_mem_of_none (hm.kindAt_of_comment hc hocc)
    have h2 := hr.not_mem_of_none (hm.kindAt_of_lineEndsAt hend)
    rw [Conventions.stop_comment]
    dsimp only
    omega
  | @closed p q hs hpq _ hclose =>
    have h1 := hr.not_mem_of_none (hm.kindAt_of_delimiter hc hs.1 (Nat.le_refl p) (by omega))
    have h2 := hr.not_mem_of_none
      (hm.kindAt_of_delimiter hc hclose (i := q + c.width - 1) (by omega) (by omega))
    rw [Conventions.stop_closed]
    dsimp only
    omega
  | @unclosed p hs _ =>
    have h1 := hr.not_mem_of_none (hm.kindAt_of_delimiter hc hs.1 (Nat.le_refl p) (by omega))
    have h2 := hr.not_mem_of_none (hm.kindAt_of_lineEndsAt (e := t.size) (.inl rfl))
    rw [Conventions.stop_unclosed]
    dsimp only
    omega

def tableOf (m : Mode) (w : List Char) : Option LexemeTable :=
  (m.dialect.tables.filter (·.contains (String.ofList w))).getLast?

theorem RunLexed.claims_iff (hm : m.RunLexed) {T : LexemeTable}
    (hT : T ∈ m.dialect.tables) {k : Edge}
    {p q : Nat} (hr : IsRun (t.kindAt m.wordChars.toList) k p q) {o : Int}
    (hp : p ≤ o) (hq : o < q) :
    (T.compile m.wordChars).claims t 0 t.size o = T.contains (String.ofList (t.slice p q)) := by
  rw [Bool.eq_iff_iff, CompiledTable.claims_iff]
  constructor
  · rintro ⟨h, hh, hl, hu⟩
    have hk := hr.mark o hp hq
    rw [show o = ((o.toNat : Nat) : Int) by omega] at hk
    obtain ⟨hr', hw⟩ :=
      CompiledTable.isRun_of_mem_hits (hm.lexemes T hT) hh (o := o.toNat) (by omega) hk
    obtain ⟨-, h1, h2⟩ := hr.eq_of_mem hr' hp hq hl hu
    rwa [show p = h.1 by omega, show q = h.2 by omega]
  · exact fun hw => ⟨(p, q), CompiledTable.mem_hits_of_isRun (hm.lexemes T hT) hr hw, hp, hq⟩

theorem RunLexed.eq_of_mem_paints (hm : m.RunLexed) {k : Edge} {p q : Nat}
    (hr : IsRun (t.kindAt m.wordChars.toList) k p q) {s : Span}
    (hs : s ∈ m.compiled.flatMap (·.scan t (0 : Nat) t.size)) {o : Int} (hp : p ≤ o) (hq : o < q)
    (hl : s.start ≤ o) (hu : o < s.stop) : s.start = p ∧ s.stop ≤ q := by
  obtain ⟨C, hC, hs⟩ := List.mem_flatMap.1 hs
  obtain ⟨T, hT, rfl⟩ := List.mem_map.1 hC
  obtain ⟨h, hh, rfl⟩ := CompiledTable.mem_scan.1 hs
  dsimp only at hl hu ⊢
  have hk := hr.mark o hp hq
  rw [show o = ((o.toNat : Nat) : Int) by omega] at hk
  obtain ⟨hr', -⟩ := CompiledTable.isRun_of_mem_hits (hm.lexemes T hT) hh
    (o := o.toNat) (by omega) hk
  obtain ⟨-, h1, h2⟩ := hr.eq_of_mem hr' hp hq hl (by omega)
  omega

theorem RunLexed.showing_of_run (hm : m.RunLexed) {c : Conventions} {k : Edge} {p q : Nat}
    (hr : IsRun (t.kindAt m.wordChars.toList) k p q)
    (hout : ∀ r ∈ c.regions t 0 t.size, (q : Int) ≤ r.opening ∨ r.stop ≤ p) {o : Int}
    (hp : p ≤ o) (hq : o < q) :
    Classification.showing m.compiled c t 0 t.size o =
      (m.tableOf (t.slice p q)).map fun T => ((p : Int), T.cls) := by
  have hk := hr.mark o hp hq
  have hin := Text.bounded_kindAt m.wordChars.toList t o (by simp [hk])
  have hno : ∀ r ∈ c.regions t 0 t.size, r.span.covers o = false := fun r hmem => by
    by_contra hcov
    have hcov := Classification.span_covers_iff.1 (by simpa using hcov : r.span.covers o = true)
    have hapart := hout r hmem
    omega
  rw [Classification.showing_of_no_region hin hno]
  have hcls := Classification.cls_lastOver_flatMap m.compiled t 0 t.size hin.2
  have hfilter : m.compiled.filter (·.claims t 0 t.size o) =
      (m.dialect.tables.filter (·.contains (String.ofList (t.slice p q)))).map
      (·.compile m.wordChars) := by
    rw [compiled, List.filter_map]
    congr 1
    exact List.filter_congr fun T hT => hm.claims_iff hT hr hp hq
  rw [hfilter, List.getLast?_map] at hcls
  unfold tableOf
  cases hT : (m.dialect.tables.filter (·.contains (String.ofList (t.slice p q)))).getLast? with
  | none =>
    rw [hT] at hcls
    simpa using hcls
  | some T =>
    rw [hT] at hcls
    obtain ⟨s, hs, hsc⟩ := Option.map_eq_some_iff.1 hcls
    obtain ⟨hmem, hcov⟩ := Span.mem_of_lastOver hs
    have hcov := Span.covers_iff.1 hcov
    have hstart := (hm.eq_of_mem_paints hr hmem hp hq hcov.1 hcov.2).1
    rw [hs]
    exact congrArg some (Prod.ext hstart hsc)

theorem RunLexed.isRun_showing (hm : m.RunLexed) {c : Conventions} (hc : c.Advances)
    {k : Edge} {p q : Nat} (hr : IsRun (t.kindAt m.wordChars.toList) k p q)
    (hout : ∀ r ∈ c.regions t 0 t.size, (q : Int) ≤ r.opening ∨ r.stop ≤ p) {T : LexemeTable}
    (hT : m.tableOf (t.slice p q) = some T) :
    IsRun (Classification.showing m.compiled c t 0 t.size) ((p : Int), T.cls) p q := by
  refine ⟨hr.lt, fun o hp hq => by rw [hm.showing_of_run hr hout hp hq, hT]; rfl,
    fun hleft => ?_, fun hright => ?_⟩
  · obtain ⟨-, s, hs, hkey⟩ := Annotations.shown_eq_some.1 hleft
    have hcov := Span.covers_iff.1 (Span.mem_of_lastOver hs).2
    have hstart : s.start = p := congrArg Prod.fst hkey
    omega
  · obtain ⟨-, s, hs, hkey⟩ := Annotations.shown_eq_some.1 hright
    obtain ⟨hmem, hcov⟩ := Span.mem_of_lastOver hs
    have hcov := Span.covers_iff.1 hcov
    have hstart : s.start = p := congrArg Prod.fst hkey
    have hlt := hr.lt
    rcases List.mem_append.1 hmem with hmem | hmem
    · have hstop := (hm.eq_of_mem_paints hr hmem (Int.le_refl _) hlt (by omega) (by omega)).2
      omega
    · obtain ⟨r, hrmem, rfl⟩ := List.mem_map.1 hmem
      have hb := Conventions.bounds_of_mem hc hrmem
      have hapart := hout r hrmem
      simp only [Region.span] at hstart hcov
      omega

/-- The span lies in code and holds word and symbol characters only. -/
def isToken (m : Mode) (t : Text) (s : Span) : Bool :=
  s.cls != .string && s.cls != .comment &&
    (s.chars t).all fun ch => Edge.ofChar m.wordChars.toList ch != .free

/-- The tokenizer: the maximal runs outside the regions that are lexemes, each in the class of the
last table that has it. -/
def tokens (m : Mode) (t : Text) (rs : List Region) : List Span :=
  ((t.runs m.wordChars.toList).filter fun run =>
    rs.all fun r => run.2 ≤ r.opening || r.stop ≤ run.1).filterMap
    fun run => (m.tableOf (t.slice run.1 run.2)).map fun T => ⟨run.1, run.2, T.cls⟩

theorem mem_tokens {rs : List Region} {s : Span} :
    s ∈ m.tokens t rs ↔ ∃ p q k T, IsRun (t.kindAt m.wordChars.toList) k (p : Nat) (q : Nat) ∧
      (∀ r ∈ rs, (q : Int) ≤ r.opening ∨ r.stop ≤ p) ∧ m.tableOf (t.slice p q) = some T ∧
      s = ⟨p, q, T.cls⟩ := by
  simp only [tokens, List.mem_filterMap, List.mem_filter, List.all_eq_true, Bool.or_eq_true,
    decide_eq_true_eq, Option.map_eq_some_iff]
  constructor
  · rintro ⟨⟨p, q⟩, ⟨hrun, hout⟩, T, hT, hs⟩
    obtain ⟨k, hr⟩ := Text.mem_runs.1 hrun
    exact ⟨p, q, k, T, hr, hout, hT, hs.symm⟩
  · rintro ⟨p, q, k, T, hr, hout, hT, hs⟩
    exact ⟨(p, q), ⟨Text.mem_runs.2 ⟨k, hr⟩, hout⟩, T, hT, hs.symm⟩

theorem pairwise_tokens (m : Mode) (t : Text) (rs : List Region) :
    (m.tokens t rs).Pairwise fun s s' => s.start < s'.start := by
  refine List.pairwise_filterMap.2 (((Text.pairwise_runs _ t).filter _).imp_of_mem ?_)
  intro run run' hrun _ hle s hs s' hs'
  obtain ⟨T, -, rfl⟩ := Option.map_eq_some_iff.1 hs
  obtain ⟨T', -, rfl⟩ := Option.map_eq_some_iff.1 hs'
  obtain ⟨k, hr⟩ := Text.mem_runs.1 (List.mem_filter.1 hrun).1
  have hlt := hr.lt
  dsimp only
  omega

theorem cls_ne_of_tableOf {w : List Char} {T : LexemeTable} (hT : m.tableOf w = some T)
    (k : RegionKind) :
    T.cls ≠ k.cls := by
  have hmem := (List.mem_filter.1 (List.mem_of_getLast? hT)).1
  exact m.distinctClasses_compiled.code (T.compile m.wordChars) (List.mem_map_of_mem hmem) k

theorem RunLexed.exists_run (hm : m.RunLexed) {c : Conventions} (hc : m.Reads c) {s : Span}
    (hs : s ∈ (Classification.ofRange m.compiled c t 0 t.size).spans)
    (htok : m.isToken t s = true) :
    ∃ p q : Nat, ∃ k, IsRun (t.kindAt m.wordChars.toList) k p q ∧ p ≤ s.start ∧ s.start < q ∧
      ∀ r ∈ c.regions t 0 t.size, (q : Int) ≤ r.opening ∨ r.stop ≤ p := by
  simp only [isToken, Bool.and_eq_true, bne_iff_ne, List.all_eq_true] at htok
  obtain ⟨⟨hstring, hcomment⟩, hchars⟩ := htok
  obtain ⟨hstart, hlt, hstop⟩ :=
    Classification.bounds_of_mem_spans hc.advances m.distinctClasses_compiled hs
  obtain ⟨key, hkey, hrun⟩ :=
    (Classification.mem_spans_ofRange hc.advances m.distinctClasses_compiled).1 hs
  have hshow := hrun.mark s.start (Int.le_refl _) hlt
  have hget : t[s.start.toNat]? = some t[s.start.toNat] := Array.getElem?_eq_getElem (by omega)
  have hkind : t.kindAt m.wordChars.toList s.start.toNat =
      some (Edge.ofChar m.wordChars.toList t[s.start.toNat]) :=
    Text.kindAt_eq_some.2 ⟨_, hget, rfl, hchars _
      ((Span.mem_chars (by omega) hlt hstop).2 ⟨s.start.toNat, by omega, by omega, hget⟩)⟩
  rw [show ((s.start.toNat : Nat) : Int) = s.start by omega] at hkind
  obtain ⟨x, y, hr, hx, hy⟩ := IsRun.exists_mem (Text.bounded_kindAt m.wordChars.toList t) hkind
  have hb := hr.bounds (Text.bounded_kindAt m.wordChars.toList t)
  refine ⟨x.toNat, y.toNat, _,
    by rwa [Int.toNat_of_nonneg (by omega), Int.toNat_of_nonneg (by omega)],
    by omega, by omega, fun r hmem => ?_⟩
  rcases hm.apart_or_inside hc (Conventions.isRegion_of_mem hc.advances hmem) hr
    with hapart | hinside
  · omega
  · have hcov :=
      Classification.span_covers_iff.2 (by omega : r.opening ≤ s.start ∧ s.start < r.stop)
    rw [Classification.showing_of_region hc.advances hmem ⟨by omega, by omega⟩ hcov,
      Option.some.injEq] at hshow
    have hcls : s.cls = r.kind.cls := by rw [← hkey, ← hshow]
    cases hk : r.kind with
    | string => exact absurd (hcls.trans (by rw [hk]; rfl)) hstring
    | comment => exact absurd (hcls.trans (by rw [hk]; rfl)) hcomment

theorem RunLexed.mem_filter_isToken (hm : m.RunLexed) {c : Conventions}
    (hc : m.Reads c) {s : Span} :
    s ∈ (Classification.ofRange m.compiled c t 0 t.size).spans.filter (m.isToken t) ↔
      s ∈ m.tokens t (c.regions t 0 t.size) := by
  have ht := m.distinctClasses_compiled
  rw [List.mem_filter, mem_tokens]
  constructor
  · rintro ⟨hs, htok⟩
    obtain ⟨p, q, k, hr, hp, hq, hout⟩ := hm.exists_run hc hs htok
    obtain ⟨key, hkey, hrun⟩ := (Classification.mem_spans_ofRange hc.advances ht).1 hs
    have hshow := hm.showing_of_run hr hout hp hq
    rw [hrun.mark s.start (Int.le_refl _) hrun.lt] at hshow
    obtain ⟨T, hT, -⟩ := Option.map_eq_some_iff.1 hshow.symm
    obtain ⟨hk, h1, h2⟩ :=
      hrun.eq_of_mem (hm.isRun_showing hc.advances hr hout hT) (Int.le_refl _) hrun.lt hp hq
    refine ⟨p, q, k, T, hr, hout, hT, ?_⟩
    rw [← h1, ← h2, show T.cls = s.cls by rw [← hkey, hk]]
  · rintro ⟨p, q, k, T, hr, hout, hT, rfl⟩
    refine ⟨(Classification.mem_spans_ofRange hc.advances ht).2
      ⟨(p, T.cls), rfl, hm.isRun_showing hc.advances hr hout hT⟩, ?_⟩
    have hb := hr.bounds (Text.bounded_kindAt m.wordChars.toList t)
    simp only [isToken, Bool.and_eq_true, bne_iff_ne, List.all_eq_true]
    refine ⟨⟨cls_ne_of_tableOf hT .string, cls_ne_of_tableOf hT .comment⟩, fun ch hch => ?_⟩
    obtain ⟨o, hpo, hoq, hget⟩ := (Span.mem_chars hb.1 hr.lt hb.2.2).1 hch
    obtain ⟨ch', hget', hof, hne⟩ := Text.kindAt_eq_some.1 (hr.mark o hpo hoq)
    rw [hget, Option.some.injEq] at hget'
    rw [hget', hof]
    exact hne

theorem RunLexed.filter_isToken_eq (hm : m.RunLexed) {c : Conventions} (hc : m.Reads c) (t : Text) :
    (Classification.ofRange m.compiled c t 0 t.size).spans.filter (m.isToken t) =
      m.tokens t (c.regions t 0 t.size) := by
  exact eq_of_mem_iff_of_ascending
    ((Classification.ascending_spans_ofRange hc.advances m.distinctClasses_compiled t _ _).filter _)
    (m.pairwise_tokens t _) fun s => hm.mem_filter_isToken hc

theorem runLexed_orson : Mode.orson.RunLexed where
  scannable := scannable_orson
  lexemes := by decide +kernel
  separators := by
    have hall :
        ((Mode.orson.commentStart.toList ++ Mode.orson.stringDelimiter.toList ++ ['\n', '\r']).all
        (Edge.ofChar Mode.orson.wordChars.toList · == .free)) = true := by decide +kernel
    exact fun ch hch => beq_iff_eq.1 (List.all_eq_true.1 hall ch hch)

/-- What a classification shows of words and symbols is what the tokenizer reads. -/
theorem filter_isToken_classify (m : Mode) (t : Text) :
    Mode.orson.RunLexed ∧ (m.RunLexed → ∃ r, m.classify t 0 none = some r ∧
      m.conventions?.map (·.scan t 0 none) = some r.regions ∧
        r.spans.filter (m.isToken t) = m.tokens t r.regions) := by
  refine ⟨runLexed_orson, fun hm => ?_⟩
  obtain ⟨c, hc⟩ := hm.scannable.exists_reads
  refine ⟨_, hc.classify_whole t, ?_, hm.filter_isToken_eq hc t⟩
  rw [hc.conventions, Option.map_some, Conventions.scan_eq_regions]
  rfl

theorem filter_isToken_classify_orson :
    Mode.orson.RunLexed ∧
      ∃ r, Mode.orson.classify (Text.ofString "if ''then'' iff ->+ :=") 0 none = some r ∧
      r.spans.filter (Mode.orson.isToken (Text.ofString "if ''then'' iff ->+ :=")) =
        [⟨0, 2, .clauseKeyword⟩, ⟨20, 22, .operator⟩] := by
  obtain ⟨horson, h⟩ := filter_isToken_classify Mode.orson (Text.ofString "if ''then'' iff ->+ :=")
  obtain ⟨r, hr, hscan, htokens⟩ := h horson
  have hregions : r.regions = [⟨.string, 3, 10, true⟩] :=
    Option.some.inj (hscan.symm.trans (by decide +kernel))
  rw [hregions] at htokens
  exact ⟨horson, r, hr, htokens.trans (by decide +kernel)⟩

end Mode

end OrsonHighlight
