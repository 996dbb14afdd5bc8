import OrsonHighlight.Proofs.FenceOrder
import OrsonHighlight.Proofs.Restart

/-!
A part of a range read on its own. An earlier end cuts the span that goes on past it and leaves out
what begins there or later, and nothing else changes. A later start does the same without a cut,
where nothing lies on both sides.
-/

set_option autoImplicit false

namespace OrsonHighlight

def Span.truncate (e : Int) (s : Span) : Span := ⟨s.start, min s.stop e, s.cls⟩

namespace Classification

/-- What begins before `e`. The span that goes on is cut there; a region is not. -/
def upTo (e : Int) (r : Classification) : Classification where
  start := r.start
  stop := e
  spans := (r.spans.filter (·.start < e)).map (·.truncate e)
  regions := r.regions.filter (·.opening < e)
  fences := r.fences.filter (·.1 < e)

def since (s : Int) (r : Classification) : Classification where
  start := s
  stop := r.stop
  spans := r.spans.filter (s ≤ ·.start)
  regions := r.regions.filter (s ≤ ·.opening)
  fences := r.fences.filter (s ≤ ·.1)

variable {tables : List CompiledTable} {c : Conventions} {t : Text} {a b s e : Nat}

theorem splitsAt_start (hc : c.Advances) (tables : List CompiledTable) (t : Text) (a b : Nat) :
    SplitsAt tables c t a b a where
  hits T _ m hm hlt := by
    have hle := (Pattern.mem_hits hm).1
    omega
  openings x hx hlt := by
    have hle := (Conventions.mem_openings hc hx).1
    omega

theorem showing_eq_mask (hc : c.Advances) (has : a ≤ s) (he : e ≤ b)
    (hs : SplitsAt tables c t a b s) :
    showing tables c t s e = IsRun.mask (IsRun.between s e) (showing tables c t a b) := by
  funext o
  unfold IsRun.mask
  split
  · rename_i hin
    simp only [IsRun.between, Bool.and_eq_true, decide_eq_true_eq] at hin
    exact showing_of_splitsAt hc has he hs hin.1 hin.2
  · rename_i hout
    by_contra hne
    have hin := bounded_showing tables c t s e o hne
    simp [IsRun.between, hin] at hout

theorem mem_spans_of_splitsAt (hc : c.Advances) (ht : DistinctClasses tables)
    (has : a ≤ s) (he : e ≤ b)
    (hs : SplitsAt tables c t a b s) {q : Span} : q ∈ (ofRange tables c t s e).spans ↔
      ∃ p ∈ (ofRange tables c t a b).spans, p.cls = q.cls ∧ q.start = max p.start s ∧
      q.stop = min p.stop e ∧
        q.start < q.stop := by
  rw [mem_spans_ofRange hc ht, showing_eq_mask hc has he hs]
  simp only [IsRun.mask_iff (bounded_showing tables c t a b), IsRun.mask_between_within,
    IsRun.within_iff]
  constructor
  · rintro ⟨k, hk, x, y, hr, hstart, hstop, hlt⟩
    exact ⟨⟨x, y, k.2⟩, (mem_spans_ofRange hc ht).2 ⟨k, rfl, hr⟩, hk, hstart, hstop, by omega⟩
  · rintro ⟨p, hp, hcls, hstart, hstop, hlt⟩
    obtain ⟨k, hk, hr⟩ := (mem_spans_ofRange hc ht).1 hp
    exact ⟨k, hk.trans hcls, p.start, p.stop, hr, hstart, hstop, by omega⟩

/-- A span is a piece of one match or region, so none lies on both sides of `s` either. -/
theorem stop_le_of_splitsAt (hc : c.Advances) (ht : DistinctClasses tables)
    (hs : SplitsAt tables c t a b s)
    {p : Span} (hp : p ∈ (ofRange tables c t a b).spans) (hlt : p.start < s) : p.stop ≤ s := by
  obtain ⟨k, -, hr⟩ := (mem_spans_ofRange hc ht).1 hp
  by_contra hgt
  obtain ⟨-, x, hx, hxk⟩ := Annotations.shown_eq_some.1 (hr.mark (s - 1) (by omega) (by omega))
  obtain ⟨-, y, hy, hyk⟩ := Annotations.shown_eq_some.1 (hr.mark s (by omega) (by omega))
  obtain ⟨hmem, hcov⟩ := Span.mem_of_lastOver hx
  obtain ⟨hmem', hcov'⟩ := Span.mem_of_lastOver hy
  obtain rfl := List.inj_on_of_nodup_map (nodup_keys_paints hc ht t a b) hmem hmem'
    (hxk.trans hyk.symm)
  have hin := Span.covers_iff.1 hcov
  have hin' := Span.covers_iff.1 hcov'
  rcases List.mem_append.1 hmem with hmem | hmem
  · obtain ⟨T, hT, hmem⟩ := List.mem_flatMap.1 hmem
    obtain ⟨m, hm, rfl⟩ := CompiledTable.mem_scan.1 hmem
    have hsplit := hs.hits T hT m hm
    dsimp only at hin hin'
    omega
  · obtain ⟨r, hr, rfl⟩ := List.mem_map.1 hmem
    have hsplit := hs.openings _ (Conventions.mem_regions.1 hr)
    have hb := Conventions.bounds_of_mem hc hr
    simp only [Opening.first, Opening.last] at hsplit
    simp only [Region.span] at hin hin'
    omega

theorem spans_ofRange_upTo (hc : c.Advances) (ht : DistinctClasses tables) (he : e ≤ b) :
    (ofRange tables c t a e).spans = ((ofRange tables c t a b).upTo e).spans := by
  refine eq_of_mem_iff_of_ascending (ascending_spans_ofRange hc ht t a e)
    (List.pairwise_map.2 ((ascending_spans_ofRange hc ht t a b).filter _)) fun q => ?_
  rw [mem_spans_of_splitsAt hc ht (Nat.le_refl a) he (splitsAt_start hc tables t a b)]
  simp only [upTo, List.mem_map, List.mem_filter, decide_eq_true_eq]
  constructor
  · rintro ⟨p, hp, hcls, hstart, hstop, hlt⟩
    have hb := bounds_of_mem_spans hc ht hp
    refine ⟨p, ⟨hp, by omega⟩, ?_⟩
    rw [Span.truncate, hcls, ← hstop, show p.start = q.start by omega]
  · rintro ⟨p, ⟨hp, hlt⟩, rfl⟩
    have hb := bounds_of_mem_spans hc ht hp
    refine ⟨p, hp, rfl, ?_, rfl, ?_⟩
    · simp only [Span.truncate]
      omega
    · simp only [Span.truncate]
      omega

theorem spans_ofRange_since (hc : c.Advances) (ht : DistinctClasses tables) (has : a ≤ s)
    (hs : SplitsAt tables c t a b s) :
    (ofRange tables c t s b).spans = ((ofRange tables c t a b).since s).spans := by
  refine eq_of_mem_iff_of_ascending (ascending_spans_ofRange hc ht t s b)
    ((ascending_spans_ofRange hc ht t a b).filter _) fun q => ?_
  rw [mem_spans_of_splitsAt hc ht has (Nat.le_refl b) hs]
  simp only [since, List.mem_filter, decide_eq_true_eq]
  constructor
  · rintro ⟨p, hp, hcls, hstart, hstop, hlt⟩
    have hb := bounds_of_mem_spans hc ht hp
    have hsplit := stop_le_of_splitsAt hc ht hs hp
    have hsame : q = p := by
      obtain ⟨x, y, l⟩ := q
      obtain ⟨x', y', l'⟩ := p
      dsimp only at hcls hstart hstop hlt hb hsplit
      rw [Span.mk.injEq]
      exact ⟨by omega, by omega, hcls.symm⟩
    subst hsame
    exact ⟨hp, by omega⟩
  · rintro ⟨hq, hge⟩
    have hb := bounds_of_mem_spans hc ht hq
    exact ⟨q, hq, rfl, by omega, by omega, hb.2.1⟩

theorem regions_ofRange_upTo (hc : c.Advances) (tables : List CompiledTable) (t : Text)
    (a : Nat) (he : e ≤ b) :
    (ofRange tables c t a e).regions = ((ofRange tables c t a b).upTo e).regions := by
  simp only [upTo, ofRange]
  rw [Conventions.regions_eq_filter hc (Nat.le_refl a) he (splitsAt_start hc tables t a b).openings]
  refine List.filter_congr fun r hr => ?_
  have hb := (Conventions.bounds_of_mem hc hr).1
  simp [hb]

theorem regions_ofRange_since (hc : c.Advances) (has : a ≤ s) (hs : SplitsAt tables c t a b s) :
    (ofRange tables c t s b).regions = ((ofRange tables c t a b).since s).regions := by
  simp only [since, ofRange]
  rw [Conventions.regions_eq_filter hc has (Nat.le_refl b) hs.openings]
  refine List.filter_congr fun r hr => ?_
  have hb := (Conventions.bounds_of_mem hc hr).2.1
  simp [hb]

theorem mem_fences_of_splitsAt (hc : c.Advances) (has : a ≤ s) (he : e ≤ b)
    (hs : SplitsAt tables c t a b s) {x : Int × Fence} : x ∈ (ofRange tables c t s e).fences ↔
      x ∈ (ofRange tables c t a b).fences ∧ (s : Int) ≤ x.1 ∧ x.1 < e := by
  rw [mem_fences_ofRange hc, mem_fences_ofRange hc,
    Conventions.regions_eq_filter hc has he hs.openings]
  simp only [List.mem_filter, Bool.and_eq_true, decide_eq_true_eq]
  constructor
  · rintro ⟨hin, r, ⟨hr, -⟩, hx⟩
    exact ⟨⟨⟨by omega, by omega⟩, r, hr, hx⟩, hin⟩
  · rintro ⟨⟨-, r, hr, hx⟩, hin⟩
    have hb := (Conventions.isRegion_of_mem hc hr).fence_bounds hx
    -- a string that opens before `s` ends there at the latest, and so do its fences
    have hsplit := hs.openings _ (Conventions.mem_regions.1 hr)
    have hopen := Conventions.bounds_of_mem hc hr
    simp only [Opening.first, Opening.last] at hsplit
    exact ⟨hin, r, ⟨hr, by omega, by omega⟩, hx⟩

theorem fences_ofRange_upTo (hc : c.Advances) (tables : List CompiledTable) (t : Text)
    (a : Nat) (he : e ≤ b) :
    (ofRange tables c t a e).fences = ((ofRange tables c t a b).upTo e).fences := by
  refine eq_of_mem_iff_of_ascending (ascending_fences_ofRange tables c t a e)
    ((ascending_fences_ofRange tables c t a b).filter _) fun x => ?_
  rw [mem_fences_of_splitsAt hc (Nat.le_refl a) he (splitsAt_start hc tables t a b)]
  simp only [upTo, List.mem_filter, decide_eq_true_eq]
  exact ⟨fun h => ⟨h.1, h.2.2⟩, fun h => ⟨h.1, ((mem_fences_ofRange hc).1 h.1).1.1, h.2⟩⟩

theorem fences_ofRange_since (hc : c.Advances) (has : a ≤ s) (hs : SplitsAt tables c t a b s) :
    (ofRange tables c t s b).fences = ((ofRange tables c t a b).since s).fences := by
  refine eq_of_mem_iff_of_ascending (ascending_fences_ofRange tables c t s b)
    ((ascending_fences_ofRange tables c t a b).filter _) fun x => ?_
  rw [mem_fences_of_splitsAt hc has (Nat.le_refl b) hs]
  simp only [since, List.mem_filter, decide_eq_true_eq]
  exact ⟨fun h => ⟨h.1, h.2.1⟩, fun h => ⟨h.1, h.2, ((mem_fences_ofRange hc).1 h.1).1.2⟩⟩

theorem ofRange_upTo (hc : c.Advances) (ht : DistinctClasses tables) (t : Text)
    (a : Nat) (he : e ≤ b) :
    ofRange tables c t a e = (ofRange tables c t a b).upTo e :=
  (Classification.mk.injEq ..).mpr ⟨rfl, rfl, spans_ofRange_upTo hc ht he,
    regions_ofRange_upTo hc tables t a he, fences_ofRange_upTo hc tables t a he⟩

theorem ofRange_since (hc : c.Advances) (ht : DistinctClasses tables) (has : a ≤ s)
    (hs : SplitsAt tables c t a b s) : ofRange tables c t s b = (ofRange tables c t a b).since s :=
  (Classification.mk.injEq ..).mpr ⟨rfl, rfl, spans_ofRange_since hc ht has hs,
    regions_ofRange_since hc has hs, fences_ofRange_since hc has hs⟩

end Classification

namespace Mode

variable {m : Mode} {t : Text}

/-- An earlier end gives what the later one, or none, gives before it. -/
theorem classify_upTo (hm : m.Scannable) (t : Text) (start e : Int) {stop : Option Int}
    (he : ∀ e' ∈ stop, e ≤ e') :
    ∃ r r', m.classify t start (some e) = some r ∧ m.classify t start stop = some r' ∧
      r.start = max 0 (min start t.size) ∧ r.stop = max r.start (min e t.size) ∧
      r = r'.upTo r.stop := by
  obtain ⟨c, hc⟩ := hm.exists_reads
  have hstart : (Text.clamp t.size start (some e)).1 = (Text.clamp t.size start stop).1 := rfl
  have hstop : (Text.clamp t.size start (some e)).2 ≤ (Text.clamp t.size start stop).2 := by
    cases stop with
    | none =>
      simp only [Text.clamp]
      omega
    | some e' =>
      have hle := he e' rfl
      simp only [Text.clamp]
      omega
  refine ⟨_, _, hc.classify_eq t start (some e), hc.classify_eq t start stop, ?_, ?_, ?_⟩
  · simp only [Classification.ofRange, Text.clamp]
    omega
  · simp only [Classification.ofRange, Text.clamp]
    omega
  · rw [hstart]
    exact Classification.ofRange_upTo hc.advances m.distinctClasses_compiled t _ hstop

theorem classify_upTo_in_string :
    Mode.orson.Scannable ∧ (∀ e' ∈ (some 11 : Option Int), (5 : Int) ≤ e') ∧
      ∃ r r', Mode.orson.classify (Text.ofString "x ''a b'' end") 0 (some 5) = some r ∧
        Mode.orson.classify (Text.ofString "x ''a b'' end") 0 (some 11) = some r' ∧ r = r'.upTo 5 ∧
          r.spans = [⟨2, 5, .string⟩] ∧ r.regions = [⟨.string, 2, 8, true⟩] ∧
          r.fences = [(2, .opening)] := by
  have hend : ∀ e' ∈ (some 11 : Option Int), (5 : Int) ≤ e' := by simp
  obtain ⟨r, r', hr, hr', hstart, hstop, hupTo⟩ :=
    classify_upTo scannable_orson (Text.ofString "x ''a b'' end") 0 5 hend
  have hsize : (Text.ofString "x ''a b'' end").size = 13 := by decide +kernel
  rw [hsize] at hstart hstop
  have hlater : Mode.orson.classify (Text.ofString "x ''a b'' end") 0 (some 11) =
      some ⟨0, 11, [⟨2, 9, .string⟩, ⟨10, 11, .clauseKeyword⟩], [⟨.string, 2, 8, true⟩],
        [(2, .opening), (8, .closing)]⟩ := by decide +kernel
  rw [show r.stop = 5 by omega] at hupTo
  obtain rfl := Option.some.inj (hr'.symm.trans hlater)
  exact ⟨scannable_orson, hend, r, _, hr, hr',
    hupTo, by rw [hupTo]; rfl, by rw [hupTo]; rfl, by rw [hupTo]; rfl⟩

/-- A later start gives the rest, if no match, region or broken literal of the whole text lies on
both sides. -/
theorem classify_since (hm : m.Scannable) {s : Nat} (hs : s ≤ t.size) (hsplit : m.SplitsAt t s) :
    ∃ r r', m.classify t s none = some r ∧ m.classify t 0 none = some r' ∧ r = r'.since s := by
  obtain ⟨c, hc⟩ := hm.exists_reads
  have hclamp : Text.clamp t.size s none = (s, t.size) := by simp [Text.clamp, hs]
  refine ⟨_, _, hc.classify_eq t s none, hc.classify_whole t, ?_⟩
  rw [hclamp]
  exact Classification.ofRange_since hc.advances m.distinctClasses_compiled (Nat.zero_le s)
    (hsplit c hc.conventions)

theorem classify_since_string :
    Mode.orson.Scannable ∧ 3 ≤ (Text.ofString "do ''a''end").size ∧
      Mode.orson.SplitsAt (Text.ofString "do ''a''end") 3 ∧
      ∃ r r', Mode.orson.classify (Text.ofString "do ''a''end") (3 : Nat) none = some r ∧
        Mode.orson.classify (Text.ofString "do ''a''end") 0 none = some r' ∧ r = r'.since 3 ∧
          r.spans = [⟨3, 8, .string⟩, ⟨8, 11, .clauseKeyword⟩] ∧
          r.fences = [(3, .opening), (7, .closing)] := by
  have hsize : 3 ≤ (Text.ofString "do ''a''end").size := by decide +kernel
  have hsplit : Mode.orson.SplitsAt (Text.ofString "do ''a''end") 3 := by
    intro c hc
    have hconv : Mode.orson.conventions? = some ⟨['!'], '\'', ['\'']⟩ := by decide +kernel
    rw [hconv, Option.some.injEq] at hc
    rw [← hc]
    exact ⟨by decide +kernel, by decide +kernel⟩
  obtain ⟨r, r', hr, hr', hsince⟩ := classify_since scannable_orson hsize hsplit
  have hwhole : Mode.orson.classify (Text.ofString "do ''a''end") 0 none =
      some ⟨0, 11, [⟨0, 2, .clauseKeyword⟩, ⟨3, 8, .string⟩, ⟨8, 11, .clauseKeyword⟩],
      [⟨.string, 3, 7, true⟩],
        [(3, .opening), (7, .closing)]⟩ := by decide +kernel
  obtain rfl := Option.some.inj (hr'.symm.trans hwhole)
  exact ⟨scannable_orson, hsize, hsplit, r, _, hr, hr',
    hsince, by rw [hsince]; rfl, by rw [hsince]; rfl⟩

end Mode

end OrsonHighlight
