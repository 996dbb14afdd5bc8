import OrsonHighlight.Annotations
import OrsonHighlight.Proofs.Runs

set_option autoImplicit false

namespace OrsonHighlight

/-- Where a span was put and its class, whatever its end. -/
def Span.key (s : Span) : Int × TokenClass := (s.start, s.cls)

theorem Span.covers_iff {s : Span} {o : Int} : s.covers o = true ↔ s.start ≤ o ∧ o < s.stop := by
  simp [covers]

namespace Annotations

def Sized (a : Annotations) : Prop := a.cells.size = (a.stop - a.start).toNat

def cellAt (a : Annotations) (o : Int) : Option Cell :=
  if a.start ≤ o ∧ o < a.stop then a.cells[(o - a.start).toNat]? else none

theorem sized_blank (start stop : Int) : (blank start stop).Sized := by simp [Sized, blank]

theorem sized_paint {a : Annotations} (h : a.Sized) (start stop : Int) (cls : Option TokenClass) :
    (a.paint start stop cls).Sized := by
  unfold Sized at *
  rw [start_paint, stop_paint, ← h]
  unfold paint
  dsimp only
  split <;> simp

theorem cellAt_ne_none {a : Annotations} (h : a.Sized) {o : Int} :
    a.cellAt o ≠ none ↔ a.start ≤ o ∧ o < a.stop := by
  unfold cellAt
  split
  · rename_i ho
    have hlt : (o - a.start).toNat < a.cells.size := by rw [h]; omega
    simp [ho, hlt]
  · simp_all

theorem bounded_cellAt {a : Annotations} (h : a.Sized) : IsRun.Bounded a.cellAt a.start a.stop :=
  fun _ ho => (cellAt_ne_none h).1 ho

theorem cellAt_blank {start stop o : Int} (h : start ≤ o ∧ o < stop) :
    (blank start stop).cellAt o = some ⟨none, 0⟩ := by
  have hlt : (o - start).toNat < (stop - start).toNat := by omega
  simp [cellAt, blank, h, hlt]

theorem cells_paint (a : Annotations) (start stop : Int) (cls : Option TokenClass) (i : Nat) :
    (a.paint start stop cls).cells[i]? =
      if start ≤ a.start + i ∧ a.start + i < min stop a.stop ∧ i < a.cells.size
        then some ⟨cls, a.writes + 1⟩
      else a.cells[i]? := by
  unfold paint
  dsimp only
  split
  · simp only [getElem?_fill]
    by_cases hin : start ≤ a.start + i ∧ a.start + i < min stop a.stop ∧ i < a.cells.size
    · rw [if_pos hin, if_pos (by omega)]
    · rw [if_neg hin, if_neg (by omega)]
  · rw [if_neg (by omega)]

theorem cellAt_paint {a : Annotations} (h : a.Sized) (start stop : Int)
    (cls : Option TokenClass) {o : Int} (ho : a.start ≤ o ∧ o < a.stop) :
    (a.paint start stop cls).cellAt o =
      if start ≤ o ∧ o < stop then some ⟨cls, a.writes + 1⟩ else a.cellAt o := by
  have hlt : (o - a.start).toNat < a.cells.size := by rw [h]; omega
  have hoff : a.start + ((o - a.start).toNat : Int) = o := by omega
  unfold cellAt
  rw [start_paint, stop_paint, if_pos ho, if_pos ho, cells_paint, hoff]
  by_cases hc : start ≤ o ∧ o < stop
  · rw [if_pos hc, if_pos ⟨hc.1, by omega, hlt⟩]
  · rw [if_neg hc, if_neg (by omega)]

theorem writes_le_writes_paint (a : Annotations) (start stop : Int) (cls : Option TokenClass) :
    a.writes ≤ (a.paint start stop cls).writes := by
  unfold paint
  dsimp only
  split
  · exact Nat.le_succ _
  · exact Nat.le_refl _

theorem writes_paint {a : Annotations} {start stop o : Int} (cls : Option TokenClass)
    (ho : a.start ≤ o ∧ o < a.stop) (hc : start ≤ o ∧ o < stop) :
    (a.paint start stop cls).writes = a.writes + 1 := by
  unfold paint
  dsimp only
  rw [if_pos (by omega)]

/-- No cell carries the number of a write that is still to come. -/
def Settled (a : Annotations) : Prop := ∀ o c, a.cellAt o = some c → c.write ≤ a.writes

theorem settled_blank (start stop : Int) : (blank start stop).Settled := by
  intro o c hc
  have ho : start ≤ o ∧ o < stop := bounded_cellAt (sized_blank start stop) o (by simp [hc])
  rw [cellAt_blank ho] at hc
  cases hc
  simp [blank]

theorem settled_paint {a : Annotations} (h : a.Sized) (hs : a.Settled) (start stop : Int)
    (cls : Option TokenClass) : (a.paint start stop cls).Settled := by
  intro o c hc
  have ho := bounded_cellAt (sized_paint h start stop cls) o (by simp [hc])
  rw [start_paint, stop_paint] at ho
  rw [cellAt_paint h start stop cls ho] at hc
  split at hc
  · rename_i hin
    cases hc
    rw [writes_paint cls ho hin]
  · exact Nat.le_trans (hs o c hc) (writes_le_writes_paint a start stop cls)

theorem mem_run {start stop : Int} {cell : Cell} {s : Span} :
    s ∈ run start stop cell ↔ s.start = start ∧ s.stop = stop ∧ cell.cls = some s.cls := by
  obtain ⟨x, y, cls⟩ := s
  unfold run
  cases cell.cls with
  | none => simp
  | some cls' =>
    simp only [List.mem_singleton, Span.mk.injEq, Option.some.injEq]
    exact ⟨fun h => ⟨h.1, h.2.1, h.2.2.symm⟩, fun h => ⟨h.1, h.2.1, h.2.2.symm⟩⟩

theorem pairwise_run (start stop : Int) (cell : Cell) :
    (run start stop cell).Pairwise fun s s' => s.stop ≤ s'.start := by
  unfold run
  split <;> simp

theorem mem_run_of_isRun {f : Int → Option Cell} {cell : Cell} {start stop : Int}
    (hr : IsRun f cell start stop) {s : Span} : s ∈ run start stop cell ↔
      (start ≤ s.start ∧ s.start < stop) ∧ ∃ c, c.cls = some s.cls ∧ IsRun f c s.start s.stop := by
  rw [mem_run]
  constructor
  · rintro ⟨h1, h2, hcls⟩
    have hlt := hr.lt
    exact ⟨by omega, cell, hcls, by rwa [h1, h2]⟩
  · rintro ⟨hin, c, hcls, hr'⟩
    obtain ⟨rfl, h1, h2⟩ := hr'.eq_of_mem hr (Int.le_refl _) hr'.lt hin.1 hin.2
    exact ⟨h1, h2, hcls⟩

theorem mem_spansFrom {f : Int → Option Cell} {start pos : Int} {cell : Cell}
    {cs : List Cell} {s : Span}
    (hlt : start < pos) (hrun : ∀ o, start ≤ o → o < pos → f o = some cell)
    (hleft : f (start - 1) ≠ some cell) (hrest : ∀ i : Nat, f (pos + i) = cs[i]?) :
    s ∈ spansFrom start pos cell cs ↔
      start ≤ s.start ∧ ∃ c, c.cls = some s.cls ∧ IsRun f c s.start s.stop := by
  induction cs generalizing start pos cell with
  | nil =>
    have hend : ∀ o, pos ≤ o → f o = none := fun o ho => by
      have h := hrest (o - pos).toNat
      rw [show pos + ((o - pos).toNat : Int) = o by omega] at h
      simpa using h
    have hr : IsRun f cell start pos := ⟨hlt, hrun, hleft, by simp [hend pos (Int.le_refl _)]⟩
    rw [spansFrom, mem_run_of_isRun hr]
    constructor
    · exact fun ⟨hin, hc⟩ => ⟨hin.1, hc⟩
    · rintro ⟨hx, c, hcls, hr'⟩
      refine ⟨⟨hx, ?_⟩, c, hcls, hr'⟩
      by_contra hge
      have hm := hr'.mark s.start (Int.le_refl _) hr'.lt
      rw [hend s.start (by omega)] at hm
      simp at hm
  | cons c rest ih =>
    have hpos : f pos = some c := by simpa using hrest 0
    have hrest' : ∀ i : Nat, f (pos + 1 + i) = rest[i]? := fun i => by
      have h := hrest (i + 1)
      rw [show pos + ((i + 1 : Nat) : Int) = pos + 1 + i by omega] at h
      simpa using h
    rw [spansFrom]
    split
    · rename_i hc
      subst hc
      refine ih (by omega) (fun o ho ho' => ?_) hleft hrest'
      by_cases he : o < pos
      · exact hrun o ho he
      · rw [show o = pos by omega]; exact hpos
    · rename_i hc
      have hr : IsRun f cell start pos := ⟨hlt, hrun, hleft, by simpa [hpos] using hc⟩
      have hnext : s ∈ spansFrom pos (pos + 1) c rest ↔
          pos ≤ s.start ∧ ∃ c, c.cls = some s.cls ∧ IsRun f c s.start s.stop := ih (by omega)
        (fun o ho ho' => by rw [show o = pos by omega]; exact hpos)
        (by rw [hrun (pos - 1) (by omega) (by omega)]; simpa using Ne.symm hc) hrest'
      rw [List.mem_append, mem_run_of_isRun hr, hnext]
      constructor
      · rintro (⟨hin, hs⟩ | ⟨hge, hs⟩)
        · exact ⟨hin.1, hs⟩
        · exact ⟨by omega, hs⟩
      · rintro ⟨hge, hs⟩
        by_cases hsp : s.start < pos
        · exact .inl ⟨⟨hge, hsp⟩, hs⟩
        · exact .inr ⟨by omega, hs⟩

theorem start_le_of_mem_spansFrom {start pos : Int} {cell : Cell} {cs : List Cell} {s : Span}
    (hlt : start < pos) (hs : s ∈ spansFrom start pos cell cs) : start ≤ s.start := by
  induction cs generalizing start pos cell with
  | nil => exact Int.le_of_eq (mem_run.1 hs).1.symm
  | cons c rest ih =>
    rw [spansFrom] at hs
    split at hs
    · exact ih (by omega) hs
    · rcases List.mem_append.1 hs with hs | hs
      · exact Int.le_of_eq (mem_run.1 hs).1.symm
      · have hge := ih (by omega) hs
        omega

theorem pairwise_spansFrom {start pos : Int} (hlt : start < pos) (cell : Cell) (cs : List Cell) :
    (spansFrom start pos cell cs).Pairwise fun s s' => s.stop ≤ s'.start := by
  induction cs generalizing start pos cell with
  | nil => exact pairwise_run start pos cell
  | cons c rest ih =>
    rw [spansFrom]
    split
    · exact ih (by omega) cell
    · refine List.pairwise_append.2 ⟨pairwise_run start pos cell, ih (by omega) c,
        fun s hs s' hs' => ?_⟩
      rw [(mem_run.1 hs).2.1]
      exact start_le_of_mem_spansFrom (by omega) hs'

theorem pairwise_spans (a : Annotations) : a.spans.Pairwise fun s s' => s.stop ≤ s'.start := by
  unfold spans
  split
  · exact List.Pairwise.nil
  · exact pairwise_spansFrom (by omega) _ _

theorem cellAt_add {a : Annotations} (h : a.Sized) (i : Nat) :
    a.cellAt (a.start + i) = a.cells.toList[i]? := by
  have hoff : (a.start + (i : Int) - a.start).toNat = i := by omega
  unfold cellAt
  split
  · rw [hoff, Array.getElem?_toList]
  · have hle : a.cells.size ≤ i := by rw [h]; omega
    rw [Array.getElem?_toList, Array.getElem?_eq_none hle]

theorem mem_spans {a : Annotations} (h : a.Sized) {s : Span} :
    s ∈ a.spans ↔ ∃ c, c.cls = some s.cls ∧ IsRun a.cellAt c s.start s.stop := by
  have hget := cellAt_add h
  unfold spans
  cases hc : a.cells.toList with
  | nil =>
    have hempty : ∀ o, a.cellAt o = none := fun o => by
      by_contra hne
      have ho := (cellAt_ne_none h).1 hne
      have hsize : a.cells.size = 0 := by rw [← Array.length_toList, hc]; rfl
      rw [h] at hsize
      omega
    constructor
    · simp
    · rintro ⟨c, -, hr⟩
      have hm := hr.mark s.start (Int.le_refl _) hr.lt
      rw [hempty] at hm
      simp at hm
  | cons c rest =>
    rw [hc] at hget
    have hfirst : a.cellAt a.start = some c := by simpa using hget 0
    have hrest : ∀ i : Nat, a.cellAt (a.start + 1 + i) = rest[i]? := fun i => by
      have hi := hget (i + 1)
      rw [show a.start + ((i + 1 : Nat) : Int) = a.start + 1 + i by omega] at hi
      simpa using hi
    have hleft : a.cellAt (a.start - 1) = none := by
      by_contra hne
      have ho := (cellAt_ne_none h).1 hne
      omega
    rw [mem_spansFrom (by omega) (fun o ho ho' => by rw [show o = a.start by omega]; exact hfirst)
      (by simp [hleft]) hrest]
    refine ⟨fun hs => hs.2, fun ⟨c, hcls, hr⟩ => ⟨?_, c, hcls, hr⟩⟩
    exact (bounded_cellAt h s.start (by simp [hr.mark s.start (Int.le_refl _) hr.lt])).1

end Annotations

def Span.lastOver : List Span → Int → Option Span
  | [], _ => none
  | s :: rest, o => (lastOver rest o).or (if s.covers o then some s else none)

namespace Span

@[simp] theorem lastOver_nil (o : Int) : lastOver [] o = none := rfl

theorem lastOver_append (ps qs : List Span) (o : Int) :
    lastOver (ps ++ qs) o = (lastOver qs o).or (lastOver ps o) := by
  induction ps with
  | nil => simp
  | cons p rest ih => simp [lastOver, ih, Option.or_assoc]

theorem mem_of_lastOver {ps : List Span} {o : Int} {s : Span} (h : lastOver ps o = some s) :
    s ∈ ps ∧ s.covers o = true := by
  induction ps with
  | nil => simp at h
  | cons p rest ih =>
    rcases Option.or_eq_some_iff.1 h with h | ⟨-, h⟩
    · exact ⟨List.mem_cons_of_mem p (ih h).1, (ih h).2⟩
    · split at h
      · rename_i hc
        obtain rfl := Option.some.inj h
        exact ⟨List.mem_cons_self .., hc⟩
      · simp at h

theorem lastOver_eq_none {ps : List Span} {o : Int} :
    lastOver ps o = none ↔ ∀ s ∈ ps, s.covers o = false := by
  induction ps with
  | nil => simp
  | cons p rest ih => simp [lastOver, ih, and_comm]

end Span

namespace Annotations

@[simp] theorem start_paintSpans (a : Annotations) (ps : List Span) :
    (a.paintSpans ps).start = a.start := by
  unfold paintSpans
  induction ps generalizing a with
  | nil => rfl
  | cons p rest ih => simp [ih, paintSpan]

@[simp] theorem stop_paintSpans (a : Annotations) (ps : List Span) :
    (a.paintSpans ps).stop = a.stop := by
  unfold paintSpans
  induction ps generalizing a with
  | nil => rfl
  | cons p rest ih => simp [ih, paintSpan]

@[simp] theorem paintSpans_nil (a : Annotations) : a.paintSpans [] = a := rfl

theorem paintSpans_cons (a : Annotations) (p : Span) (ps : List Span) :
    a.paintSpans (p :: ps) = (a.paintSpan p).paintSpans ps := rfl

theorem paintSpans_append (a : Annotations) (ps qs : List Span) :
    a.paintSpans (ps ++ qs) = (a.paintSpans ps).paintSpans qs := List.foldl_append

theorem sized_paintSpans {a : Annotations} (h : a.Sized) (ps : List Span) :
    (a.paintSpans ps).Sized := by
  induction ps generalizing a with
  | nil => exact h
  | cons p rest ih => exact ih (sized_paint h _ _ _)

theorem cls_cellAt_paintSpans {a : Annotations} (h : a.Sized) (ps : List Span) {o : Int}
    (ho : a.start ≤ o ∧ o < a.stop) :
    ((a.paintSpans ps).cellAt o).bind (·.cls) =
      ((Span.lastOver ps o).map (·.cls)).or ((a.cellAt o).bind (·.cls)) := by
  induction ps generalizing a with
  | nil => simp
  | cons p rest ih =>
    rw [paintSpans_cons, paintSpan, ih (sized_paint h _ _ _) (by simpa using ho),
      cellAt_paint h _ _ _ ho, Span.lastOver]
    cases hl : Span.lastOver rest o with
    | some s => simp
    | none => by_cases hc : p.covers o = true <;> simp [hc, Span.covers_iff.symm]

/-- Two offsets have one cell exactly when one span is the last over both. -/
theorem cellAt_paintSpans_eq_iff {a : Annotations} (h : a.Sized) (hs : a.Settled) {ps : List Span}
    (hn : ps.Nodup) {o o' : Int} (ho : a.start ≤ o ∧ o < a.stop)
    (ho' : a.start ≤ o' ∧ o' < a.stop) :
    (a.paintSpans ps).cellAt o = (a.paintSpans ps).cellAt o' ↔
      Span.lastOver ps o = Span.lastOver ps o' ∧
        (Span.lastOver ps o = none → a.cellAt o = a.cellAt o') := by
  induction ps generalizing a with
  | nil => simp
  | cons p rest ih =>
    obtain ⟨hp, hn⟩ := List.nodup_cons.1 hn
    have fresh : ∀ {o}, Span.lastOver rest o ≠ some p := fun hl => hp (Span.mem_of_lastOver hl).1
    have new : ∀ o, a.cellAt o ≠ some ⟨some p.cls, a.writes + 1⟩ := fun o hc => by
      have hle : a.writes + 1 ≤ a.writes := hs o _ hc
      omega
    rw [paintSpans_cons, paintSpan, ih (sized_paint h _ _ _) (settled_paint h hs _ _ _) hn
      (by simpa using ho) (by simpa using ho')]
    simp only [cellAt_paint h _ _ _ ho, cellAt_paint h _ _ _ ho', Span.lastOver, ← Span.covers_iff]
    cases hl : Span.lastOver rest o with
    | some s =>
      have hsp : s ≠ p := fun he => fresh (he ▸ hl)
      cases hl' : Span.lastOver rest o' with
      | some s' => simp
      | none => by_cases hc' : p.covers o' = true <;> simp [hc', hsp]
    | none =>
      cases hl' : Span.lastOver rest o' with
      | some s' =>
        have hsp : p ≠ s' := fun he => fresh (he ▸ hl')
        by_cases hc : p.covers o = true <;> simp [hc, hsp]
      | none =>
        by_cases hc : p.covers o = true <;> by_cases hc' : p.covers o' = true <;>
          simp [hc, hc', new, (new _).symm]

def shown (start stop : Int) (ps : List Span) (o : Int) : Option (Int × TokenClass) :=
  if start ≤ o ∧ o < stop then (Span.lastOver ps o).map Span.key else none

theorem shown_eq_some {start stop : Int} {ps : List Span} {o : Int} {k : Int × TokenClass} :
    shown start stop ps o = some k ↔
      (start ≤ o ∧ o < stop) ∧ ∃ s, Span.lastOver ps o = some s ∧ s.key = k := by
  unfold shown
  split <;> simp_all

theorem bounded_shown (start stop : Int) (ps : List Span) :
    IsRun.Bounded (shown start stop ps) start stop := by
  intro o ho
  unfold shown at ho
  split at ho
  · assumption
  · exact absurd rfl ho

theorem mem_spans_paintSpans_blank {start stop : Int} {ps : List Span}
    (hn : (ps.map Span.key).Nodup) {s : Span} :
    s ∈ ((blank start stop).paintSpans ps).spans ↔
      ∃ k, k.2 = s.cls ∧ IsRun (shown start stop ps) k s.start s.stop := by
  have hsized := sized_blank start stop
  have hps := sized_paintSpans hsized ps
  have hrange :
      ∀ {o}, start ≤ o ∧ o < stop ↔ ((blank start stop).paintSpans ps).cellAt o ≠ none := by
    intro o
    rw [cellAt_ne_none hps]
    simp [blank]
  have hcls : ∀ {o}, start ≤ o ∧ o < stop →
      (((blank start stop).paintSpans ps).cellAt o).bind (·.cls) =
        (Span.lastOver ps o).map (·.cls) := by
    intro o ho
    rw [cls_cellAt_paintSpans hsized ps ho, cellAt_blank ho]
    simp
  have same : ∀ {x c p}, ((blank start stop).paintSpans ps).cellAt x = some c →
      Span.lastOver ps x = some p →
      ∀ o, ((blank start stop).paintSpans ps).cellAt o = some c ↔
        shown start stop ps o = some p.key := by
    intro x c p hc hp o
    have hx := hrange.2 (by simp [hc] : ((blank start stop).paintSpans ps).cellAt x ≠ none)
    by_cases ho : start ≤ o ∧ o < stop
    · rw [← hc, shown_eq_some, cellAt_paintSpans_eq_iff hsized (settled_blank start stop)
        (List.Nodup.of_map _ hn) ho hx, hp]
      constructor
      · exact fun hl => ⟨ho, p, hl.1, rfl⟩
      · rintro ⟨-, q, hq, hk⟩
        have hqp := List.inj_on_of_nodup_map hn (Span.mem_of_lastOver hq).1
          (Span.mem_of_lastOver hp).1 hk
        subst hqp
        exact ⟨hq, by simp [hq]⟩
    · have hnone : ((blank start stop).paintSpans ps).cellAt o = none := by
        by_contra hne
        exact ho (hrange.2 hne)
      simp [hnone, shown, ho]
  rw [mem_spans hps]
  constructor
  · rintro ⟨c, hc, hr⟩
    have hx := hr.mark s.start (Int.le_refl _) hr.lt
    have hlast :=
      hcls (hrange.2 (by simp [hx] : ((blank start stop).paintSpans ps).cellAt s.start ≠ none))
    rw [hx, Option.bind_some, hc] at hlast
    obtain ⟨p, hp, hpc⟩ := Option.map_eq_some_iff.1 hlast.symm
    exact ⟨p.key, hpc, (IsRun.congr (same hx hp)).1 hr⟩
  · rintro ⟨k, hk, hr⟩
    obtain ⟨hin, p, hp, hpk⟩ := shown_eq_some.1 (hr.mark s.start (Int.le_refl _) hr.lt)
    obtain ⟨c, hx⟩ := Option.ne_none_iff_exists'.1 (hrange.1 hin)
    have hlast := hcls hin
    rw [hx, hp] at hlast
    subst hpk
    exact ⟨c, hlast.trans (congrArg some hk), (IsRun.congr (same hx hp)).2 hr⟩

end Annotations

end OrsonHighlight
