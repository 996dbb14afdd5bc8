import Mathlib.Data.List.Induction
import OrsonHighlight.Proofs.Paint

/-!
Paints one after another, of any ranges and also of no class. Each offset has the class of the last
paint over it, and the spans that are read back are the longest stretches of offsets that one paint
was the last to cover.
-/

set_option autoImplicit false

namespace OrsonHighlight

/-- A range and what to paint it with; none takes away the class that was there. -/
structure Paint where
  start : Int
  stop : Int
  cls : Option TokenClass
  deriving DecidableEq, Repr

namespace Paint

def covers (p : Paint) (o : Int) : Bool := p.start ≤ o && o < p.stop

theorem covers_iff {p : Paint} {o : Int} : p.covers o = true ↔ p.start ≤ o ∧ o < p.stop := by
  simp [covers]

/-- The number of the last paint over the offset, counted from zero. -/
def lastWriter (ps : List Paint) (o : Int) : Option Nat :=
  ((List.range ps.length).filter fun i => ps[i]?.any (·.covers o)).getLast?

def clsOf (ps : List Paint) (i : Nat) : Option TokenClass := ps[i]?.bind (·.cls)

@[simp] theorem lastWriter_nil (o : Int) : lastWriter [] o = none := rfl

theorem lt_of_lastWriter {ps : List Paint} {o : Int} {i : Nat} (h : lastWriter ps o = some i) :
    i < ps.length := by
  have hmem := List.mem_of_getLast? h
  exact List.mem_range.1 (List.mem_filter.1 hmem).1

theorem lastWriter_concat (ps : List Paint) (p : Paint) (o : Int) :
    lastWriter (ps ++ [p]) o = if p.covers o then some ps.length else lastWriter ps o := by
  have hold : (List.range ps.length).filter (fun i => (ps ++ [p])[i]?.any (·.covers o)) =
      (List.range ps.length).filter fun i => ps[i]?.any (·.covers o) :=
    List.filter_congr fun i hi => by rw [List.getElem?_append_left (List.mem_range.1 hi)]
  have hnew : (ps ++ [p])[ps.length]? = some p := by simp
  unfold lastWriter
  rw [List.length_append, List.length_singleton, List.range_succ, List.filter_append, hold,
    List.filter_singleton, hnew]
  by_cases hc : p.covers o = true <;> simp [hc]

theorem clsOf_concat_of_lt {ps : List Paint} (p : Paint) {i : Nat} (hi : i < ps.length) :
    clsOf (ps ++ [p]) i = clsOf ps i := by
  rw [clsOf, clsOf, List.getElem?_append_left hi]

theorem clsOf_concat_length (ps : List Paint) (p : Paint) :
    clsOf (ps ++ [p]) ps.length = p.cls := by
  simp [clsOf]

def writerIn (start stop : Int) (ps : List Paint) (o : Int) : Option Nat :=
  if start ≤ o ∧ o < stop then lastWriter ps o else none

theorem writerIn_eq_some {start stop : Int} {ps : List Paint} {o : Int} {i : Nat} :
    writerIn start stop ps o = some i ↔ (start ≤ o ∧ o < stop) ∧ lastWriter ps o = some i := by
  unfold writerIn
  split <;> simp_all

theorem bounded_writerIn (start stop : Int) (ps : List Paint) :
    IsRun.Bounded (writerIn start stop ps) start stop := by
  intro o ho
  obtain ⟨i, hi⟩ := Option.ne_none_iff_exists'.1 ho
  exact (writerIn_eq_some.1 hi).1

end Paint

namespace Annotations

open Paint

def paintAll (a : Annotations) (ps : List Paint) : Annotations :=
  ps.foldl (fun a p => a.paint p.start p.stop p.cls) a

theorem paintAll_concat (a : Annotations) (ps : List Paint) (p : Paint) :
    a.paintAll (ps ++ [p]) = (a.paintAll ps).paint p.start p.stop p.cls := by
  simp [paintAll]

theorem classAt_eq (a : Annotations) (o : Int) : a.classAt o = (a.cellAt o).bind (·.cls) := by
  unfold classAt cellAt
  split <;> rfl

/-- What the cells of a range hold after the paints: the class given last, and one cell for all the
offsets that the same paint was the last to cover. -/
structure Holds (start stop : Int) (ps : List Paint) (a : Annotations) : Prop where
  start_eq : a.start = start
  stop_eq : a.stop = stop
  sized : a.Sized
  settled : a.Settled
  cls : ∀ o, start ≤ o ∧ o < stop → (a.cellAt o).bind (·.cls) = (lastWriter ps o).bind (clsOf ps)
  same : ∀ o o', start ≤ o ∧ o < stop → start ≤ o' ∧ o' < stop →
    (a.cellAt o = a.cellAt o' ↔ lastWriter ps o = lastWriter ps o')

theorem holds_blank (start stop : Int) : Holds start stop [] (blank start stop) where
  start_eq := rfl
  stop_eq := rfl
  sized := sized_blank start stop
  settled := settled_blank start stop
  cls o ho := by simp [cellAt_blank ho]
  same o o' ho ho' := by simp [cellAt_blank ho, cellAt_blank ho']

variable {start stop : Int} {ps : List Paint} {a : Annotations}

namespace Holds

theorem cellAt_paint (h : Holds start stop ps a) (p : Paint) {o : Int} (ho : start ≤ o ∧ o < stop) :
    (a.paint p.start p.stop p.cls).cellAt o =
      if p.covers o then some ⟨p.cls, a.writes + 1⟩ else a.cellAt o := by
  rw [Annotations.cellAt_paint h.sized _ _ _ (by rw [h.start_eq, h.stop_eq]; exact ho)]
  simp only [covers_iff]

theorem cellAt_ne_next (h : Holds start stop ps a) (cls : Option TokenClass) (o : Int) :
    a.cellAt o ≠ some ⟨cls, a.writes + 1⟩ := by
  intro hc
  have hle : a.writes + 1 ≤ a.writes := h.settled o _ hc
  omega

theorem paint (h : Holds start stop ps a) (p : Paint) :
    Holds start stop (ps ++ [p]) (a.paint p.start p.stop p.cls) where
  start_eq := (start_paint a _ _ _).trans h.start_eq
  stop_eq := (stop_paint a _ _ _).trans h.stop_eq
  sized := sized_paint h.sized _ _ _
  settled := settled_paint h.sized h.settled _ _ _
  cls o ho := by
    rw [h.cellAt_paint p ho, lastWriter_concat]
    by_cases hc : p.covers o = true
    · simp [hc, clsOf_concat_length]
    · rw [if_neg hc, if_neg hc, h.cls o ho]
      cases hw : lastWriter ps o with
      | none => rfl
      | some i => exact (clsOf_concat_of_lt p (lt_of_lastWriter hw)).symm
  same o o' ho ho' := by
    -- the new paint is told from all before by its number, on the cells as among the paints
    have hcell := h.cellAt_ne_next p.cls
    have hnew : ∀ o, lastWriter ps o ≠ some ps.length :=
      fun o hw => absurd (lt_of_lastWriter hw) (Nat.lt_irrefl _)
    rw [h.cellAt_paint p ho, h.cellAt_paint p ho', lastWriter_concat, lastWriter_concat]
    by_cases hc : p.covers o = true <;> by_cases hc' : p.covers o' = true
    · simp [hc, hc']
    · simp [hc, hc', (hcell o').symm, (hnew o').symm]
    · simp [hc, hc', hcell o, hnew o]
    · simp only [hc, hc', h.same o o' ho ho', Bool.false_eq_true, if_false]

end Holds

theorem holds_paintAll (start stop : Int) (ps : List Paint) :
    Holds start stop ps ((blank start stop).paintAll ps) := by
  induction ps using List.reverseRecOn with
  | nil => exact holds_blank start stop
  | append_singleton ps p ih =>
    rw [paintAll_concat]
    exact ih.paint p

namespace Holds

theorem inRange_iff (h : Holds start stop ps a) {o : Int} :
    a.cellAt o ≠ none ↔ start ≤ o ∧ o < stop := by
  rw [cellAt_ne_none h.sized, h.start_eq, h.stop_eq]

theorem cellAt_eq_none (h : Holds start stop ps a) {o : Int} (ho : ¬ (start ≤ o ∧ o < stop)) :
    a.cellAt o = none := by
  by_contra hne
  exact ho (h.inRange_iff.1 hne)

theorem cellAt_iff_writerIn (h : Holds start stop ps a) {x : Int} {c : Cell} {i : Nat}
    (hc : a.cellAt x = some c)
    (hi : lastWriter ps x = some i) (o : Int) :
    a.cellAt o = some c ↔ writerIn start stop ps o = some i := by
  have hx := h.inRange_iff.1 (by simp [hc] : a.cellAt x ≠ none)
  by_cases ho : start ≤ o ∧ o < stop
  · rw [← hc, h.same o x ho hx, hi, writerIn, if_pos ho]
  · simp [h.cellAt_eq_none ho, writerIn, ho]

theorem mem_spans (h : Holds start stop ps a) {s : Span} :
    s ∈ a.spans ↔ ∃ i, clsOf ps i = some s.cls ∧
      IsRun (writerIn start stop ps) i s.start s.stop := by
  rw [Annotations.mem_spans h.sized]
  constructor
  · rintro ⟨c, hcls, hr⟩
    have hx := hr.mark s.start (Int.le_refl _) hr.lt
    have hlast := h.cls s.start (h.inRange_iff.1 (by simp [hx]))
    rw [hx, Option.bind_some, hcls] at hlast
    obtain ⟨i, hi, hci⟩ := Option.bind_eq_some_iff.1 hlast.symm
    exact ⟨i, hci, (IsRun.congr (h.cellAt_iff_writerIn hx hi)).1 hr⟩
  · rintro ⟨i, hci, hr⟩
    obtain ⟨hin, hi⟩ := writerIn_eq_some.1 (hr.mark s.start (Int.le_refl _) hr.lt)
    obtain ⟨c, hx⟩ := Option.ne_none_iff_exists'.1 (h.inRange_iff.2 hin)
    have hlast := h.cls s.start hin
    rw [hx, hi, Option.bind_some, Option.bind_some, hci] at hlast
    exact ⟨c, hlast, (IsRun.congr (h.cellAt_iff_writerIn hx hi)).2 hr⟩

theorem exists_span (h : Holds start stop ps a) {o : Int} {i : Nat} {cls : TokenClass}
    (hi : writerIn start stop ps o = some i) (hcls : clsOf ps i = some cls) :
    ∃ s ∈ a.spans, s.cls = cls ∧ s.covers o = true ∧
      IsRun (writerIn start stop ps) i s.start s.stop := by
  obtain ⟨x, y, hr, hx, hy⟩ := IsRun.exists_mem (bounded_writerIn start stop ps) hi
  exact ⟨⟨x, y, cls⟩, h.mem_spans.2 ⟨i, hcls, hr⟩, rfl, Span.covers_iff.2 ⟨hx, hy⟩, hr⟩

theorem bounds_of_mem (h : Holds start stop ps a) {s : Span} (hs : s ∈ a.spans) :
    start ≤ s.start ∧ s.start < s.stop ∧ s.stop ≤ stop := by
  obtain ⟨i, -, hr⟩ := h.mem_spans.1 hs
  exact hr.bounds (bounded_writerIn start stop ps)

theorem exists_neighbours (h : Holds start stop ps a) {o : Int} {i j : Nat} {cls : TokenClass}
    (hi : writerIn start stop ps (o - 1) = some i)
    (hj : writerIn start stop ps o = some j) (hne : i ≠ j)
    (hci : clsOf ps i = some cls) (hcj : clsOf ps j = some cls) :
    ∃ s ∈ a.spans, ∃ s' ∈ a.spans, s.stop = o ∧ s'.start = o ∧ s.cls = cls ∧ s'.cls = cls := by
  obtain ⟨s, hs, hscls, hc, hr⟩ := h.exists_span hi hci
  obtain ⟨s', hs', hscls', hc', hr'⟩ := h.exists_span hj hcj
  have hin := Span.covers_iff.1 hc
  have hin' := Span.covers_iff.1 hc'
  refine ⟨s, hs, s', hs', ?_, ?_, hscls, hscls'⟩
  · by_contra hstop
    exact hne (Option.some.inj ((hr.mark o (by omega) (by omega)).symm.trans hj))
  · by_contra hstart
    exact hne (Option.some.inj (hi.symm.trans (hr'.mark (o - 1) (by omega) (by omega))))

theorem exists_cut (h : Holds start stop ps a) {x y z : Int} {i : Nat} {cls : TokenClass}
    (hxy : x < y) (hyz : y < z)
    (hx : writerIn start stop ps x = some i) (hy : writerIn start stop ps y ≠ some i)
    (hz : writerIn start stop ps z = some i) (hcls : clsOf ps i = some cls) :
    ∃ s ∈ a.spans, ∃ s' ∈ a.spans, s.covers x = true ∧ s.stop ≤ y ∧ y < s'.start ∧
      s'.covers z = true ∧ s.cls = cls ∧ s'.cls = cls := by
  obtain ⟨s, hs, hscls, hc, hr⟩ := h.exists_span hx hcls
  obtain ⟨s', hs', hscls', hc', hr'⟩ := h.exists_span hz hcls
  have hin := Span.covers_iff.1 hc
  have hin' := Span.covers_iff.1 hc'
  refine ⟨s, hs, s', hs', hc, ?_, ?_, hc', hscls, hscls'⟩
  · by_contra hstop
    exact hy (hr.mark y (by omega) (by omega))
  · by_contra hstart
    exact hy (hr'.mark y (by omega) (by omega))

end Holds

theorem ascending_of_apart {ss : List Span} (hp : ss.Pairwise fun s s' => s.stop ≤ s'.start)
    (hlt : ∀ s ∈ ss, s.start < s.stop) : ss.Pairwise fun s s' => s.start < s'.start := by
  refine hp.imp_of_mem fun {s s'} hs _ hle => ?_
  have hs := hlt s hs
  omega

theorem shown_iff_covers {ss : List Span} (hp : ss.Pairwise fun s s' => s.stop ≤ s'.start)
    (hb : ∀ s ∈ ss, start ≤ s.start ∧ s.start < s.stop ∧ s.stop ≤ stop) {s : Span}
    (hs : s ∈ ss) {o : Int} :
    shown start stop ss o = some s.key ↔ s.covers o = true := by
  rw [shown_eq_some]
  constructor
  · rintro ⟨-, s', hlast, hkey⟩
    obtain ⟨hs', hc⟩ := Span.mem_of_lastOver hlast
    have hst : s'.start = s.start := congrArg Prod.fst hkey
    have hb' := hb s' hs'
    -- both cover the place where they begin
    rwa [eq_of_covers_of_pairwise hp hs hs' ⟨Int.le_refl s.start, (hb s hs).2.1⟩
      ⟨by omega, by omega⟩]
  · intro hc
    have hin := Span.covers_iff.1 hc
    have hbs := hb s hs
    refine ⟨by omega, ?_⟩
    cases hlast : Span.lastOver ss o with
    | none =>
      rw [Span.lastOver_eq_none.1 hlast s hs] at hc
      simp at hc
    | some s' =>
      obtain ⟨hs', hc'⟩ := Span.mem_of_lastOver hlast
      exact ⟨s', rfl, by rw [eq_of_covers_of_pairwise hp hs hs' hin (Span.covers_iff.1 hc')]⟩

theorem isRun_shown {ss : List Span} (hp : ss.Pairwise fun s s' => s.stop ≤ s'.start)
    (hb : ∀ s ∈ ss, start ≤ s.start ∧ s.start < s.stop ∧ s.stop ≤ stop) {s : Span} (hs : s ∈ ss) :
    IsRun (shown start stop ss) s.key s.start s.stop := by
  have hcovers : ∀ o, shown start stop ss o = some s.key ↔ s.start ≤ o ∧ o < s.stop := fun o =>
    (shown_iff_covers hp hb hs).trans Span.covers_iff
  refine ⟨(hb s hs).2.1, fun o hl hu => (hcovers o).2 ⟨hl, hu⟩, fun hl => ?_, fun hr => ?_⟩
  · have hin := (hcovers _).1 hl
    omega
  · have hin := (hcovers _).1 hr
    omega

theorem spans_paintSpans_blank {ss : List Span} (hp : ss.Pairwise fun s s' => s.stop ≤ s'.start)
    (hb : ∀ s ∈ ss, start ≤ s.start ∧ s.start < s.stop ∧ s.stop ≤ stop) :
    ((blank start stop).paintSpans ss).spans = ss := by
  have hasc := ascending_of_apart hp fun s hs => (hb s hs).2.1
  have hkeys : (ss.map Span.key).Nodup := List.pairwise_map.2 (hasc.imp fun {s s'} hlt heq => by
    have hst : s.start = s'.start := congrArg Prod.fst heq
    omega)
  have hmem : ∀ s, s ∈ ((blank start stop).paintSpans ss).spans ↔ s ∈ ss := by
    intro s
    rw [mem_spans_paintSpans_blank hkeys]
    constructor
    · rintro ⟨k, hk, hr⟩
      obtain ⟨-, s', hlast, rfl⟩ := shown_eq_some.1 (hr.mark s.start (Int.le_refl _) hr.lt)
      obtain ⟨hs', hc'⟩ := Span.mem_of_lastOver hlast
      have hin := Span.covers_iff.1 hc'
      -- both are runs of what is shown, and they share a place
      obtain ⟨-, hstart, hstop⟩ :=
        hr.eq_of_mem (isRun_shown hp hb hs') (Int.le_refl _) hr.lt hin.1 hin.2
      have heq : s = s' := by
        obtain ⟨x, y, cls⟩ := s
        obtain ⟨x', y', cls'⟩ := s'
        simp_all [Span.key]
      rwa [heq]
    · exact fun hs => ⟨s.key, rfl, isRun_shown hp hb hs⟩
  refine eq_of_mem_iff_of_ascending (ascending_of_apart (pairwise_spans _) fun s hs => ?_) hasc hmem
  exact (hb s ((hmem s).1 hs)).2.1

/-- What is read back after the paints. The spans are given by membership and order, and that they
lie apart, that neighbours stay apart and that a later paint cuts an earlier one is said of them
besides. -/
structure ReadsBack (start stop : Int) (ps : List Paint) (a : Annotations) : Prop where
  inside : ∀ o, start ≤ o ∧ o < stop → a.classAt o = (lastWriter ps o).bind (clsOf ps)
  outside : ∀ o, ¬ (start ≤ o ∧ o < stop) → a.classAt o = none
  spans : ∀ s, s ∈ a.spans ↔ ∃ i, clsOf ps i = some s.cls ∧
    IsRun (writerIn start stop ps) i s.start s.stop
  ascending : a.spans.Pairwise fun s s' => s.start < s'.start
  apart : a.spans.Pairwise fun s s' => s.stop ≤ s'.start
  bounds : ∀ s ∈ a.spans, start ≤ s.start ∧ s.start < s.stop ∧ s.stop ≤ stop
  neighbours : ∀ o i j cls, writerIn start stop ps (o - 1) = some i →
    writerIn start stop ps o = some j → i ≠ j → clsOf ps i = some cls → clsOf ps j = some cls →
    ∃ s ∈ a.spans, ∃ s' ∈ a.spans, s.stop = o ∧ s'.start = o ∧ s.cls = cls ∧ s'.cls = cls
  cut : ∀ x y z i cls, x < y → y < z → writerIn start stop ps x = some i →
    writerIn start stop ps y ≠ some i → writerIn start stop ps z = some i → clsOf ps i = some cls →
    ∃ s ∈ a.spans, ∃ s' ∈ a.spans, s.covers x = true ∧ s.stop ≤ y ∧ y < s'.start ∧
    s'.covers z = true ∧
      s.cls = cls ∧ s'.cls = cls
  again : ((blank start stop).paintSpans a.spans).spans = a.spans

theorem readsBack_paintAll (start stop : Int) (ps : List Paint) :
    ReadsBack start stop ps ((blank start stop).paintAll ps) := by
  have h := holds_paintAll start stop ps
  have hapart := pairwise_spans ((blank start stop).paintAll ps)
  have hbounds := fun s hs => h.bounds_of_mem (s := s) hs
  exact {
    inside := fun o ho => by rw [classAt_eq, h.cls o ho]
    outside := fun o ho => by rw [classAt_eq, h.cellAt_eq_none ho, Option.bind_none]
    spans := fun s => h.mem_spans
    ascending := ascending_of_apart hapart fun s hs => (hbounds s hs).2.1
    apart := hapart
    bounds := hbounds
    neighbours := fun o i j cls hi hj hne hci hcj => h.exists_neighbours hi hj hne hci hcj
    cut := fun x y z i cls hxy hyz hx hy hz hcls => h.exists_cut hxy hyz hx hy hz hcls
    again := spans_paintSpans_blank hapart hbounds }

example :
    ((blank 0 8).paintAll [⟨-2, 2, some .operator⟩, ⟨2, 4, some .operator⟩, ⟨4, 9, some .plainName⟩,
      ⟨6, 3, some .string⟩, ⟨5, 6, none⟩]).spans =
      [⟨0, 2, .operator⟩, ⟨2, 4, .operator⟩, ⟨4, 5, .plainName⟩, ⟨6, 8, .plainName⟩] := by decide

end Annotations

end OrsonHighlight
