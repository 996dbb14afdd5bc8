import OrsonHighlight.Classification
import OrsonHighlight.Proofs.Matches
import OrsonHighlight.Proofs.RegionGrammar

/-!
What a classification says of each offset: the region that covers it, or else the last table that
claims it. Its spans are the runs of offsets that show one region or one match.
-/

set_option autoImplicit false

namespace OrsonHighlight

/-- No two tables share a class, and none has that of strings or comments. -/
structure DistinctClasses (tables : List CompiledTable) : Prop where
  nodup : (tables.map (·.cls)).Nodup
  code : ∀ T ∈ tables, ∀ k : RegionKind, T.cls ≠ k.cls

theorem Mode.map_cls_compiled (m : Mode) :
    m.compiled.map (·.cls) = TableName.all.map fun n => (m.dialect.table n).cls := by
  simp [compiled, Dialect.tables, LexemeTable.compile, Function.comp_def]

theorem RegionKind.isCode_cls (k : RegionKind) : k.cls.isCode = false := by cases k <;> rfl

theorem Mode.distinctClasses_compiled (m : Mode) : DistinctClasses m.compiled where
  nodup := by
    rw [m.map_cls_compiled]
    exact TableName.nodup_all.map fun n n' h => m.dialect.apart n n' h
  code T hT k heq := by
    have hcls : T.cls ∈ m.compiled.map (·.cls) := List.mem_map_of_mem hT
    rw [m.map_cls_compiled] at hcls
    obtain ⟨n, -, hn⟩ := List.mem_map.1 hcls
    have hcode := m.dialect.code n
    rw [hn, heq, k.isCode_cls] at hcode
    cases hcode

namespace Classification

variable {tables : List CompiledTable} {c : Conventions} {t : Text} {a b : Nat}

def paints (tables : List CompiledTable) (c : Conventions) (t : Text) (a b : Nat) : List Span :=
  tables.flatMap (·.scan t a b) ++ (c.regions t a b).map (·.span)

/-- Which match or region an offset of the range shows, by its start and class. -/
def showing (tables : List CompiledTable) (c : Conventions) (t : Text) (a b : Nat) :
    Int → Option (Int × TokenClass) := Annotations.shown a b (paints tables c t a b)

theorem primary_eq (tables : List CompiledTable) (t : Text) (start stop : Int) :
    primary tables t start stop =
      (Annotations.blank start stop).paintSpans (tables.flatMap (·.scan t start stop)) := by
  unfold primary
  generalize Annotations.blank start stop = blank
  induction tables generalizing blank with
  | nil => rfl
  | cons T rest ih => rw [List.foldl_cons, List.flatMap_cons, Annotations.paintSpans_append, ih]

theorem spans_ofRange (tables : List CompiledTable) (c : Conventions) (t : Text) (a b : Nat) :
    (ofRange tables c t a b).spans =
      ((Annotations.blank a b).paintSpans (paints tables c t a b)).spans := by
  rw [paints, Annotations.paintSpans_append, ← primary_eq]
  rfl

theorem nodup_keys_paints (hc : c.Advances) (ht : DistinctClasses tables) (t : Text) (a b : Nat) :
    ((paints tables c t a b).map Span.key).Nodup := by
  rw [paints, List.map_append, List.nodup_append, List.map_flatMap, List.map_map]
  refine ⟨List.nodup_flatMap.2 ⟨fun T _ => T.nodup_keys_scan t a b, ?_⟩, ?_, ?_⟩
  · refine (List.pairwise_map.1 ht.nodup).imp fun {T T'} hne => ?_
    rintro k hk hk'
    obtain ⟨s, hs, rfl⟩ := List.mem_map.1 hk
    obtain ⟨s', hs', heq⟩ := List.mem_map.1 hk'
    have hcls : s'.cls = s.cls := congrArg Prod.snd heq
    rw [CompiledTable.cls_of_mem_scan hs, CompiledTable.cls_of_mem_scan hs'] at hcls
    exact hne hcls.symm
  · refine List.pairwise_map.2 ((Conventions.pairwise_regions hc t a b).imp_of_mem
      fun {r r'} hr _ hle heq => ?_)
    have hb := Conventions.bounds_of_mem hc hr
    have hst : r.opening = r'.opening := congrArg Prod.fst heq
    omega
  · rintro k hk k' hk' rfl
    obtain ⟨T, hT, hk⟩ := List.mem_flatMap.1 hk
    obtain ⟨s, hs, rfl⟩ := List.mem_map.1 hk
    obtain ⟨r, -, heq⟩ := List.mem_map.1 hk'
    have hcls : r.kind.cls = s.cls := congrArg Prod.snd heq
    rw [CompiledTable.cls_of_mem_scan hs] at hcls
    exact ht.code T hT r.kind hcls.symm

theorem mem_spans_ofRange (hc : c.Advances) (ht : DistinctClasses tables) {s : Span} :
    s ∈ (ofRange tables c t a b).spans ↔
      ∃ k, k.2 = s.cls ∧ IsRun (showing tables c t a b) k s.start s.stop := by
  rw [spans_ofRange, Annotations.mem_spans_paintSpans_blank (nodup_keys_paints hc ht t a b)]
  rfl

theorem pairwise_spans_ofRange (tables : List CompiledTable) (c : Conventions)
    (t : Text) (a b : Nat) :
    (ofRange tables c t a b).spans.Pairwise fun s s' => s.stop ≤ s'.start := by
  rw [spans_ofRange]
  exact Annotations.pairwise_spans _

theorem bounded_showing (tables : List CompiledTable) (c : Conventions) (t : Text) (a b : Nat) :
    IsRun.Bounded (showing tables c t a b) a b := Annotations.bounded_shown _ _ _

theorem bounds_of_mem_spans (hc : c.Advances) (ht : DistinctClasses tables) {s : Span}
    (hs : s ∈ (ofRange tables c t a b).spans) :
    (a : Int) ≤ s.start ∧ s.start < s.stop ∧ s.stop ≤ b := by
  obtain ⟨k, -, hr⟩ := (mem_spans_ofRange hc ht).1 hs
  exact hr.bounds (bounded_showing tables c t a b)

theorem ascending_spans_ofRange (hc : c.Advances) (ht : DistinctClasses tables)
    (t : Text) (a b : Nat) :
    (ofRange tables c t a b).spans.Pairwise fun p p' => p.start < p'.start := by
  refine (pairwise_spans_ofRange tables c t a b).imp_of_mem fun {p p'} hp _ hle => ?_
  have hlt := (bounds_of_mem_spans hc ht hp).2.1
  omega

theorem classIn_eq_some_iff {ss : List Span} (hp : ss.Pairwise fun s s' => s.stop ≤ s'.start)
    (hlt : ∀ s ∈ ss, s.start < s.stop) {o : Int} {k : TokenClass} :
    classIn o ss = some k ↔ ∃ s ∈ ss, s.covers o = true ∧ s.cls = k := by
  induction ss with
  | nil => simp [classIn]
  | cons s rest ih =>
    obtain ⟨hs, hp⟩ := List.pairwise_cons.1 hp
    have ih := ih hp fun s' hs' => hlt s' (List.mem_cons_of_mem s hs')
    have later : ∀ s' ∈ rest, s'.covers o = true → s.stop ≤ o := fun s' hs' hc =>
      Int.le_trans (hs s' hs') (Span.covers_iff.1 hc).1
    have hlts := hlt s (List.mem_cons_self ..)
    rw [classIn]
    split
    · rename_i hc
      constructor
      · exact fun h => ⟨s, List.mem_cons_self .., hc, Option.some.inj h⟩
      · rintro ⟨s', hs', hc', rfl⟩
        rcases List.mem_cons.1 hs' with rfl | hs'
        · rfl
        · have hle := later s' hs' hc'
          have hin := Span.covers_iff.1 hc
          omega
    · rename_i hc
      have skip : (∃ s' ∈ s :: rest, s'.covers o = true ∧ s'.cls = k) ↔
          ∃ s' ∈ rest, s'.covers o = true ∧ s'.cls = k := by simp [hc]
      rw [skip]
      split
      · rename_i ho
        -- spans come in order, so none after one that begins past the offset covers it
        constructor
        · simp
        · rintro ⟨s', hs', hc', -⟩
          have hle := later s' hs' hc'
          omega
      · exact ih

theorem classAt_eq_some_iff (hc : c.Advances) (ht : DistinctClasses tables) {o : Int}
    {cls : TokenClass} :
    (ofRange tables c t a b).classAt o = some cls ↔
      ∃ s ∈ (ofRange tables c t a b).spans, s.covers o = true ∧ s.cls = cls :=
  classIn_eq_some_iff (pairwise_spans_ofRange tables c t a b)
    fun _ hs => (bounds_of_mem_spans hc ht hs).2.1

theorem classAt_ofRange (hc : c.Advances) (ht : DistinctClasses tables) (t : Text)
    (a b : Nat) (o : Int) :
    (ofRange tables c t a b).classAt o = (showing tables c t a b o).map (·.2) := by
  refine Option.ext fun k => ?_
  rw [classAt_eq_some_iff hc ht, Option.map_eq_some_iff]
  constructor
  · rintro ⟨s, hs, hcov, rfl⟩
    obtain ⟨k, hk, hr⟩ := (mem_spans_ofRange hc ht).1 hs
    have hin := Span.covers_iff.1 hcov
    exact ⟨k, hr.mark o hin.1 hin.2, hk⟩
  · rintro ⟨k, hk, rfl⟩
    obtain ⟨x, y, hr, hx, hy⟩ := IsRun.exists_mem (bounded_showing tables c t a b) hk
    exact ⟨⟨x, y, k.2⟩, (mem_spans_ofRange hc ht).2 ⟨k, rfl, hr⟩, Span.covers_iff.2 ⟨hx, hy⟩, rfl⟩

theorem span_covers_iff {r : Region} {o : Int} :
    r.span.covers o = true ↔ r.opening ≤ o ∧ o < r.stop :=
  Span.covers_iff

theorem showing_of_region (hc : c.Advances) {r : Region} (hr : r ∈ c.regions t a b) {o : Int}
    (ho : (a : Int) ≤ o ∧ o < b) (hcov : r.span.covers o = true) :
    showing tables c t a b o = some (r.opening, r.kind.cls) := by
  refine Annotations.shown_eq_some.2 ⟨ho, r.span, ?_, rfl⟩
  rw [paints, Span.lastOver_append]
  cases hl : Span.lastOver ((c.regions t a b).map (·.span)) o with
  | none =>
    have hno := Span.lastOver_eq_none.1 hl r.span (List.mem_map_of_mem hr)
    rw [hcov] at hno
    simp at hno
  | some s =>
    obtain ⟨hs, hcov'⟩ := Span.mem_of_lastOver hl
    obtain ⟨r', hr', rfl⟩ := List.mem_map.1 hs
    -- regions lie apart, so the one painted last is the only one over the offset
    rw [eq_of_covers_of_pairwise (Conventions.pairwise_regions hc t a b) hr' hr
      (span_covers_iff.1 hcov') (span_covers_iff.1 hcov)]
    rfl

theorem showing_of_no_region {o : Int} (ho : (a : Int) ≤ o ∧ o < b)
    (hno : ∀ r ∈ c.regions t a b, r.span.covers o = false) :
    showing tables c t a b o = (Span.lastOver (tables.flatMap (·.scan t a b)) o).map Span.key := by
  have hnone : Span.lastOver ((c.regions t a b).map (·.span)) o = none :=
    Span.lastOver_eq_none.2 fun s hs => by
      obtain ⟨r, hr, rfl⟩ := List.mem_map.1 hs
      exact hno r hr
  unfold showing Annotations.shown
  rw [if_pos ho, paints, Span.lastOver_append, hnone, Option.none_or]

theorem cls_lastOver_flatMap (tables : List CompiledTable) (t : Text) (a b : Nat)
    {o : Int} (ho : o < b) :
    (Span.lastOver (tables.flatMap (·.scan t a b)) o).map (·.cls) =
      ((tables.filter (·.claims t a b o)).getLast?).map (·.cls) := by
  induction tables with
  | nil => rfl
  | cons T rest ih =>
    rw [List.flatMap_cons, Span.lastOver_append]
    cases hl : Span.lastOver (T.scan t a b) o with
    | none =>
      have hclaims : ¬ T.claims t a b o = true := by
        simp [(CompiledTable.lastOver_scan_eq_none ho).1 hl]
      have hfilter : (T :: rest).filter (·.claims t a b o) = rest.filter (·.claims t a b o) :=
        List.filter_cons_of_neg hclaims
      rw [hfilter, Option.or_none, ih]
    | some s =>
      have hclaims : T.claims t a b o = true := by
        by_contra hno
        rw [(CompiledTable.lastOver_scan_eq_none ho).2 (by simpa using hno)] at hl
        simp at hl
      have hcls : s.cls = T.cls := CompiledTable.cls_of_mem_scan (Span.mem_of_lastOver hl).1
      have hfilter : (T :: rest).filter (·.claims t a b o) = T :: rest.filter (·.claims t a b o) :=
        List.filter_cons_of_pos hclaims
      rw [hfilter, List.getLast?_cons]
      cases hrest : Span.lastOver (rest.flatMap (·.scan t a b)) o with
      | none =>
        rw [hrest, Option.map_none, eq_comm, Option.map_eq_none_iff] at ih
        simp [ih, hcls]
      | some s' =>
        rw [hrest, Option.map_some, eq_comm, Option.map_eq_some_iff] at ih
        obtain ⟨T', hT', hcls'⟩ := ih
        simp [hT', hcls']

theorem ofRange_self (tables : List CompiledTable) (c : Conventions) (t : Text) (a : Nat) :
    ofRange tables c t a a = .empty a a := by
  have hregions : c.regions t a a = [] := c.regions_of_le t (Nat.le_refl a)
  have hspans : (ofRange tables c t a a).spans = [] := by
    rw [spans_ofRange]
    refine List.eq_nil_iff_forall_not_mem.2 fun s hs => ?_
    obtain ⟨k, -, hr⟩ :=
      (Annotations.mem_spans (Annotations.sized_paintSpans (Annotations.sized_blank _ _) _)).1 hs
    have hcell := hr.mark s.start (Int.le_refl _) hr.lt
    have hin := Annotations.bounded_cellAt
      (Annotations.sized_paintSpans (Annotations.sized_blank _ _) _) s.start (by rw [hcell]; simp)
    simp [Annotations.blank] at hin
    omega
  unfold ofRange at hspans ⊢
  simp only [Classification.mk.injEq, empty] at hspans ⊢
  exact ⟨trivial, trivial, hspans, hregions, by rw [hregions]; rfl⟩

end Classification

namespace Mode

variable {m : Mode} {t : Text}

/-- The delimiter is not empty, nor is the comment trigger, which does not begin with a line end. -/
structure Scannable (m : Mode) : Prop where
  delimiter_ne : m.stringDelimiter ≠ ""
  comment_ne : m.commentStart ≠ ""
  head : ∀ ch, m.commentStart.toList.head? = some ch → isLineEnd ch = false

structure Reads (m : Mode) (c : Conventions) : Prop where
  conventions : m.conventions? = some c
  advances : c.Advances
  comment : c.comment = m.commentStart.toList
  delimiter : c.delimiter = m.stringDelimiter.toList

theorem exists_conventions (hd : m.stringDelimiter ≠ "") :
    ∃ c, m.conventions? = some c ∧ c.comment = m.commentStart.toList ∧
      c.delimiter = m.stringDelimiter.toList := by
  cases h : m.stringDelimiter.toList with
  | nil => exact absurd (String.toList_eq_nil_iff.1 h) hd
  | cons q rest =>
    exact ⟨⟨m.commentStart.toList, q, rest⟩, by simp [conventions?, Conventions.of?, h], rfl, rfl⟩

theorem scannable_iff_advances {c : Conventions} (hd : m.stringDelimiter ≠ "")
    (hcomment : c.comment = m.commentStart.toList) : m.Scannable ↔ c.Advances := by
  have hne : m.commentStart ≠ "" ↔ c.comment ≠ [] := by
    rw [hcomment, Ne, Ne, String.toList_eq_nil_iff]
  exact ⟨fun h => ⟨hne.1 h.comment_ne, hcomment ▸ h.head⟩,
    fun h => ⟨hd, hne.2 h.comment_ne_nil, hcomment ▸ h.head⟩⟩

theorem Scannable.exists_reads (hm : m.Scannable) : ∃ c, m.Reads c := by
  obtain ⟨c, hc, hcomment, hdelimiter⟩ := exists_conventions hm.delimiter_ne
  exact ⟨c, hc, (scannable_iff_advances hm.delimiter_ne hcomment).1 hm, hcomment, hdelimiter⟩

theorem Reads.classify_eq {c : Conventions} (hr : m.Reads c) (t : Text) (start : Int)
    (stop : Option Int) :
    m.classify t start stop =
      some (.ofRange m.compiled c t (Text.clamp t.size start stop).1
        (Text.clamp t.size start stop).2) := by
  unfold classify
  dsimp only
  split
  · rename_i heq
    rw [← heq, Classification.ofRange_self]
  · rw [hr.conventions]
    rfl

theorem Reads.classify_whole {c : Conventions} (hr : m.Reads c) (t : Text) :
    m.classify t 0 none = some (.ofRange m.compiled c t 0 t.size) := by
  rw [hr.classify_eq]
  simp [Text.clamp]

theorem Reads.classify_between {c : Conventions} (hr : m.Reads c) {a b : Nat} (ha : a ≤ t.size)
    (hb : b ≤ t.size) :
    m.classify t a (some (b : Int)) = some (.ofRange m.compiled c t a (max a b)) := by
  rw [hr.classify_eq]
  simp [Text.clamp, Nat.min_eq_left ha, Nat.min_eq_left hb]

def claimant (m : Mode) (t : Text) (a b : Nat) (o : Int) : Option CompiledTable :=
  (m.compiled.filter (·.claims t a b o)).getLast?

theorem claimant_eq_some {C : CompiledTable} {a b : Nat} {o : Int} (hC : C ∈ m.compiled)
    (hclaims : C.claims t a b o = true)
    (honly : ∀ C' ∈ m.compiled, C'.claims t a b o = true → C' = C) :
    m.claimant t a b o = some C := by
  have hmem : C ∈ m.compiled.filter (·.claims t a b o) := List.mem_filter.2 ⟨hC, hclaims⟩
  rw [claimant, List.getLast?_eq_some_getLast (List.ne_nil_of_mem hmem)]
  obtain ⟨hlast, hclaims'⟩ := List.mem_filter.1 (List.getLast_mem (List.ne_nil_of_mem hmem))
  rw [honly _ hlast hclaims']

/-- A classification that layers the regions of its range over the tables in their order. -/
structure Composited (m : Mode) (t : Text) (r : Classification) : Prop where
  bounds : 0 ≤ r.start ∧ r.start ≤ r.stop ∧ r.stop ≤ t.size
  regions : m.conventions?.map (·.scan t r.start (some r.stop)) = some r.regions
  span : ∀ s ∈ r.spans, r.start ≤ s.start ∧ s.start < s.stop ∧ s.stop ≤ r.stop
  ordered : r.spans.Pairwise fun s s' => s.start < s'.start ∧ s.stop ≤ s'.start
  outside : ∀ o, ¬ (r.start ≤ o ∧ o < r.stop) → r.classAt o = none
  region : ∀ o, r.start ≤ o ∧ o < r.stop → ∀ g ∈ r.regions, g.span.covers o = true →
    r.classAt o = some g.kind.cls
  table : ∀ o, r.start ≤ o ∧ o < r.stop → (∀ g ∈ r.regions, g.span.covers o = false) →
    r.classAt o = (m.claimant t r.start.toNat r.stop.toNat o).map (·.cls)

theorem Reads.composited_ofRange {c : Conventions} (hr : m.Reads c) {a b : Nat} (hab : a ≤ b)
    (hb : b ≤ t.size) :
    m.Composited t (.ofRange m.compiled c t a b) := by
  have hc := hr.advances
  have ht := m.distinctClasses_compiled
  have hspan :=
    fun s hs => Classification.bounds_of_mem_spans (t := t) (a := a) (b := b) hc ht (s := s) hs
  refine ⟨⟨Int.natCast_nonneg a, Int.ofNat_le.2 hab, Int.ofNat_le.2 hb⟩, ?_, hspan,
    ?_, fun o ho => ?_, fun o ho g hg hcov => ?_, fun o ho hno => ?_⟩
  · rw [hr.conventions, Option.map_some, Conventions.scan_eq_regions]
    simp only [Classification.ofRange, Text.rangeEnd]
    rw [show (max 0 (a : Int)).toNat = a by omega, show (min (b : Int) t.size).toNat = b by omega]
  · refine (Classification.pairwise_spans_ofRange m.compiled c t a b).imp_of_mem
      fun {s s'} hs _ hle => ?_
    have hlt := (hspan s hs).2.1
    exact ⟨by omega, hle⟩
  · rw [Classification.classAt_ofRange hc ht, Option.map_eq_none_iff]
    by_contra hne
    exact ho (Classification.bounded_showing _ _ _ _ _ o hne)
  · rw [Classification.classAt_ofRange hc ht, Classification.showing_of_region hc hg ho hcov]
    rfl
  · rw [Classification.classAt_ofRange hc ht, Classification.showing_of_no_region ho hno,
      Option.map_map]
    exact Classification.cls_lastOver_flatMap m.compiled t a b ho.2

theorem classify_composited (hm : m.Scannable) (t : Text) (start : Int) (stop : Option Int) :
    ∃ r, m.classify t start stop = some r ∧ r.start = max 0 (min start t.size) ∧
      r.stop = max r.start (t.rangeEnd stop) ∧ m.Composited t r := by
  obtain ⟨c, hr⟩ := hm.exists_reads
  refine ⟨_, hr.classify_eq t start stop, ?_, ?_,
    hr.composited_ofRange (Text.clamp_fst_le_snd _ _ _) (Text.clamp_snd_le _ _ _)⟩
  · simp only [Classification.ofRange, Text.clamp]
    omega
  · cases stop with
    | none =>
      simp only [Classification.ofRange, Text.clamp, Text.rangeEnd]
      omega
    | some b =>
      simp only [Classification.ofRange, Text.clamp, Text.rangeEnd]
      omega

theorem scannable_orson : Mode.orson.Scannable where
  delimiter_ne := by decide
  comment_ne := by decide
  head ch hch := by
    have hcomment : Mode.orson.commentStart.toList = ['!'] := by decide
    rw [hcomment] at hch
    exact Option.some.inj hch ▸ rfl

theorem classify_composited_orson :
    Mode.orson.Scannable ∧
      ∃ r, Mode.orson.classify (Text.ofString "x ''a b'' y") (-2) (some 7) = some r ∧
      r.start = 0 ∧ r.stop = 7 ∧ Mode.orson.Composited (Text.ofString "x ''a b'' y") r := by
  obtain ⟨r, hr, hstart, hstop, hcomp⟩ :=
    classify_composited scannable_orson (Text.ofString "x ''a b'' y") (-2) (some 7)
  have hsize : (Text.ofString "x ''a b'' y").size = 11 := by decide +kernel
  rw [hsize] at hstart
  rw [Text.rangeEnd, hsize, hstart] at hstop
  exact ⟨scannable_orson, r, hr, hstart, hstop, hcomp⟩

end Mode

end OrsonHighlight
