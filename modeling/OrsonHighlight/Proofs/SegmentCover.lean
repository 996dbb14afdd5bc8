import Mathlib.Data.List.Chain
import OrsonHighlight.Proofs.Compositing
import OrsonHighlight.Render.Segments

set_option autoImplicit false

namespace OrsonHighlight

namespace Text

variable {t : Text} {a b c : Int}

theorem cut_eq_slice (ha : 0 ≤ a) (hab : a ≤ b) (hb : b ≤ t.size) :
    t.cut a b = t.slice a.toNat b.toNat := by
  rw [cut, bound_eq_toNat ha (by omega), bound_eq_toNat (by omega) hb]

theorem length_cut (ha : 0 ≤ a) (hab : a ≤ b) (hb : b ≤ t.size) :
    ((t.cut a b).length : Int) = b - a := by
  rw [cut_eq_slice ha hab hb, slice, Array.length_toList, Array.size_extract]
  omega

theorem cut_append_cut (ha : 0 ≤ a) (hab : a ≤ b) (hbc : b ≤ c) (hc : c ≤ t.size) :
    t.cut a b ++ t.cut b c = t.cut a c := by
  rw [cut_eq_slice ha hab (by omega), cut_eq_slice (by omega) hbc hc, cut_eq_slice ha (by omega) hc]
  rw [slice, slice, slice, ← Array.toList_append, Array.extract_append_extract,
    Nat.min_eq_left (by omega), Nat.max_eq_right (by omega)]

theorem cut_ne_nil (ha : 0 ≤ a) (hab : a < b) (hb : b ≤ t.size) : t.cut a b ≠ [] := by
  intro h
  have hlen := length_cut ha (Int.le_of_lt hab) hb
  rw [h] at hlen
  simp only [List.length_nil] at hlen
  omega

theorem cut_self (t : Text) (a : Int) : t.cut a a = [] := by simp [cut, slice]

end Text

namespace Span

def InOrder (pos stop : Int) : List Span → Prop
  | [] => pos ≤ stop
  | s :: rest => pos ≤ s.start ∧ s.start < s.stop ∧ InOrder s.stop stop rest

theorem InOrder.le {pos stop : Int} {ss : List Span} (h : InOrder pos stop ss) : pos ≤ stop := by
  induction ss generalizing pos with
  | nil => exact h
  | cons s rest ih =>
    have hle := ih h.2.2
    have hfirst := h.1
    have hlt := h.2.1
    omega

theorem inOrder_of_pairwise {pos stop : Int} {ss : List Span} (hle : pos ≤ stop)
    (hp : ss.Pairwise fun s s' => s.stop ≤ s'.start)
    (hb : ∀ s ∈ ss, pos ≤ s.start ∧ s.start < s.stop ∧ s.stop ≤ stop) : InOrder pos stop ss := by
  induction ss generalizing pos with
  | nil => exact hle
  | cons s rest ih =>
    obtain ⟨hs, hp⟩ := List.pairwise_cons.1 hp
    obtain ⟨hfirst, hlt, hlast⟩ := hb s (List.mem_cons_self ..)
    refine ⟨hfirst, hlt, ih hlast hp fun s' hs' => ?_⟩
    have hin := (hb s' (List.mem_cons_of_mem s hs')).2
    exact ⟨hs s' hs', hin.1, hin.2⟩

end Span

namespace Segment

def spansFrom (pos : Int) : List Segment → List Span
  | [] => []
  | s :: rest =>
    (s.cls.map fun k => (⟨pos, pos + s.chars.length, k⟩ : Span)).toList ++
      spansFrom (pos + s.chars.length) rest

def classed? (s : Segment) : Option (List Char × TokenClass) := s.cls.map (s.chars, ·)

/-- The pieces of a range: together its text, none empty, no two without a class side by side, and
those with a class are its spans. -/
structure Covers (t : Text) (r : Classification) (segments : List Segment) : Prop where
  nonempty : ∀ s ∈ segments, s.chars ≠ []
  chars : segments.flatMap (·.chars) = t.cut r.start r.stop
  gaps : segments.IsChain fun s s' => s.cls ≠ none ∨ s'.cls ≠ none
  classed : segments.filterMap classed? = r.spans.map fun p => (p.chars t, p.cls)
  spans : spansFrom r.start segments = r.spans

variable {t : Text} {pos start stop : Int} {ss : List Span}

def gap (t : Text) (pos start : Int) : List Segment :=
  if pos < start then [⟨t.cut pos start, none⟩] else []

theorem between_nil (t : Text) (stop pos : Int) : between t stop pos [] = gap t pos stop := rfl

theorem between_cons (t : Text) (stop pos : Int) (s : Span) (rest : List Span) :
    between t stop pos (s :: rest) = gap t pos s.start ++ ⟨s.chars t, some s.cls⟩ ::
      between t stop s.stop rest := rfl

theorem mem_gap {s : Segment} :
    s ∈ gap t pos start ↔ pos < start ∧ s = ⟨t.cut pos start, none⟩ := by
  unfold gap
  split <;> simp_all

theorem flatMap_chars_gap (hle : pos ≤ start) :
    (gap t pos start).flatMap (·.chars) = t.cut pos start := by
  unfold gap
  split
  · simp
  · rw [show start = pos by omega, Text.cut_self]
    rfl

theorem filterMap_classed?_gap (t : Text) (pos start : Int) :
    (gap t pos start).filterMap classed? = [] := by
  unfold gap
  split <;> rfl

theorem spansFrom_gap_append (h0 : 0 ≤ pos) (hle : pos ≤ start) (hn : start ≤ t.size)
    (segments : List Segment) :
    spansFrom pos (gap t pos start ++ segments) = spansFrom start segments := by
  unfold gap
  split
  · rw [List.singleton_append, spansFrom, Text.length_cut h0 hle hn,
      show pos + (start - pos) = start by omega]
    rfl
  · rw [show start = pos by omega]
    rfl

theorem ne_nil_of_mem_between (h0 : 0 ≤ pos) (hn : stop ≤ t.size)
    (h : Span.InOrder pos stop ss) {s : Segment}
    (hs : s ∈ between t stop pos ss) : s.chars ≠ [] := by
  induction ss generalizing pos with
  | nil =>
    rw [between_nil, mem_gap] at hs
    rw [hs.2]
    exact Text.cut_ne_nil h0 hs.1 hn
  | cons p rest ih =>
    obtain ⟨hfirst, hlt, hrest⟩ := h
    have hle := hrest.le
    rw [between_cons, List.mem_append, List.mem_cons, mem_gap] at hs
    rcases hs with ⟨hpos, rfl⟩ | rfl | hs
    · exact Text.cut_ne_nil h0 hpos (by omega)
    · exact Text.cut_ne_nil (by omega) hlt (by omega)
    · exact ih (by omega) hrest hs

theorem flatMap_chars_between (h0 : 0 ≤ pos) (hn : stop ≤ t.size) (h : Span.InOrder pos stop ss) :
    (between t stop pos ss).flatMap (·.chars) = t.cut pos stop := by
  induction ss generalizing pos with
  | nil => exact flatMap_chars_gap h
  | cons p rest ih =>
    obtain ⟨hfirst, hlt, hrest⟩ := h
    have hle := hrest.le
    rw [between_cons, List.flatMap_append, List.flatMap_cons, flatMap_chars_gap hfirst,
      ih (by omega) hrest]
    rw [Span.chars, Text.cut_append_cut (by omega) (by omega) hle hn,
      Text.cut_append_cut h0 hfirst (by omega) hn]

theorem isChain_between (t : Text) (stop pos : Int) (ss : List Span) :
    (between t stop pos ss).IsChain fun s s' => s.cls ≠ none ∨ s'.cls ≠ none := by
  induction ss generalizing pos with
  | nil =>
    rw [between_nil, gap]
    split <;> simp
  | cons p rest ih =>
    have hclassed : (⟨p.chars t, some p.cls⟩ :: between t stop p.stop rest : List Segment).IsChain
        fun s s' => s.cls ≠ none ∨ s'.cls ≠ none :=
      List.isChain_cons.2 ⟨fun _ _ => .inl (by simp), ih p.stop⟩
    rw [between_cons, gap]
    split
    · exact List.isChain_cons.2 ⟨fun s hs => by simp at hs; simp [← hs], hclassed⟩
    · exact hclassed

theorem filterMap_classed?_between (t : Text) (stop pos : Int) (ss : List Span) :
    (between t stop pos ss).filterMap classed? = ss.map fun p => (p.chars t, p.cls) := by
  induction ss generalizing pos with
  | nil => exact filterMap_classed?_gap t pos stop
  | cons p rest ih =>
    rw [between_cons, List.filterMap_append, filterMap_classed?_gap, List.nil_append,
      List.filterMap_cons, ih]
    rfl

theorem spansFrom_between (h0 : 0 ≤ pos) (hn : stop ≤ t.size) (h : Span.InOrder pos stop ss) :
    spansFrom pos (between t stop pos ss) = ss := by
  induction ss generalizing pos with
  | nil =>
    have hgap := spansFrom_gap_append h0 h hn (t := t) []
    rwa [List.append_nil] at hgap
  | cons p rest ih =>
    obtain ⟨hfirst, hlt, hrest⟩ := h
    have hle := hrest.le
    have hlen : p.start + ((p.chars t).length : Int) = p.stop := by
      rw [Span.chars, Text.length_cut (by omega) (by omega) (by omega)]
      omega
    rw [between_cons, spansFrom_gap_append h0 hfirst (by omega), spansFrom]
    dsimp only
    rw [hlen, ih (by omega) hrest]
    rfl

end Segment

theorem Mode.Composited.inOrder {m : Mode} {t : Text} {r : Classification} (h : m.Composited t r) :
    Span.InOrder r.start r.stop r.spans :=
  Span.inOrder_of_pairwise h.bounds.2.1 (h.ordered.imp fun hp => hp.2) h.span

theorem Mode.Composited.covers {m : Mode} {t : Text} {r : Classification} (h : m.Composited t r) :
    Segment.Covers t r (Segment.ofClassification t r) where
  nonempty _ hs := Segment.ne_nil_of_mem_between h.bounds.1 h.bounds.2.2 h.inOrder hs
  chars := Segment.flatMap_chars_between h.bounds.1 h.bounds.2.2 h.inOrder
  gaps := Segment.isChain_between t r.stop r.start r.spans
  classed := Segment.filterMap_classed?_between t r.stop r.start r.spans
  spans := Segment.spansFrom_between h.bounds.1 h.bounds.2.2 h.inOrder

end OrsonHighlight
