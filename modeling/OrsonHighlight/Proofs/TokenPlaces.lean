import OrsonHighlight.Proofs.LinePieces

/-!
What a client reads from the numbers that it is sent: the longest pieces of the spans without a line
feed, each at the line and column of its first character. No two lie on one another, and together
they lie on every offset that has a class and is no line feed.
-/

set_option autoImplicit false

namespace OrsonHighlight

structure Span.IsPiece (t : Text) (s q : Span) : Prop where
  cls : q.cls = s.cls
  lt : q.start < q.stop
  inside : s.start ≤ q.start ∧ q.stop ≤ s.stop
  one_line : ∀ o : Nat, q.start ≤ o → o < q.stop → t[o]? ≠ some '\n'
  left : q.start = s.start ∨ t[(q.start - 1).toNat]? = some '\n'
  right : q.stop = s.stop ∨ t[q.stop.toNat]? = some '\n'

theorem Span.isPiece_iff {t : Text} {s q : Span} (h0 : 0 ≤ s.start) : s.IsPiece t q ↔
    q.cls = s.cls ∧
      IsRun (IsRun.mask (SemanticTokens.visible t) (IsRun.within s.start s.stop))
        () q.start q.stop := by
  have inside :
      ∀ {o}, IsRun.mask (SemanticTokens.visible t) (IsRun.within s.start s.stop) o = some () ↔
      t[o.toNat]? ≠ some '\n' ∧ s.start ≤ o ∧ o < s.stop := fun {o} => by
    rw [IsRun.mask_eq_some, IsRun.within_eq_some]
    simp [SemanticTokens.visible]
  constructor
  · rintro ⟨hcls, hlt, hin, hline, hleft, hright⟩
    refine ⟨hcls, hlt,
      fun o ho ho' => inside.2 ⟨hline o.toNat (by omega) (by omega), by omega, by omega⟩,
      fun hl => ?_, fun hr => ?_⟩
    · rcases hleft with heq | hlf
      · have hlow := (inside.1 hl).2.1
        omega
      · exact (inside.1 hl).1 hlf
    · rcases hright with heq | hlf
      · have hup := (inside.1 hr).2.2
        omega
      · exact (inside.1 hr).1 hlf
  · rintro ⟨hcls, hr⟩
    have hb := hr.bounds ((IsRun.bounded_within s.start s.stop).mask (SemanticTokens.visible t))
    refine ⟨hcls, hr.lt, ⟨hb.1, hb.2.2⟩, fun o ho ho' => (inside.1 (hr.mark o ho ho')).1, ?_, ?_⟩
    · have hleft := hr.left
      rw [ne_eq, inside] at hleft
      by_contra hno
      exact hleft ⟨fun hlf => hno (.inr hlf), by omega, by omega⟩
    · have hright := hr.right
      rw [ne_eq, inside] at hright
      by_contra hno
      exact hright ⟨fun hlf => hno (.inr hlf), by omega, by omega⟩

namespace LineToken

/-- The token has the place of the first character of the span, its length and its class. -/
structure Tells (t : Text) (k : LineToken) (q : Span) : Prop where
  stands : t.StandsAt q.start.toNat k.line k.column
  length : k.length = q.stop - q.start
  cls : k.cls = q.cls

def Covers (t : Text) (k : LineToken) (o : Nat) : Prop :=
  ∃ column, t.StandsAt o k.line column ∧ k.column ≤ column ∧ (column : Int) < k.column + k.length

def Before (k k' : LineToken) : Prop :=
  k.line < k'.line ∨ k.line = k'.line ∧ k.column + k.length ≤ (k'.column : Int)

variable {t : Text} {k k' : LineToken} {q q' : Span}

theorem Tells.covers_iff (h : k.Tells t q) (h0 : 0 ≤ q.start)
    (hline : ∀ o : Nat, q.start ≤ o → o < q.stop → t[o]? ≠ some '\n') {o : Nat} :
    k.Covers t o ↔ q.start ≤ o ∧ o < q.stop := by
  obtain ⟨hk, hcolumn⟩ := Text.standsAt_iff.1 h.stands
  have hlength := h.length
  have hle := t.lineStartAt_le q.start.toNat
  have hle' := t.lineStartAt_le o
  constructor
  · rintro ⟨column, hstands, hl, hu⟩
    obtain ⟨hk', hcolumn'⟩ := Text.standsAt_iff.1 hstands
    have hstart : t.lineStartAt o = t.lineStartAt q.start.toNat := by
      rcases Nat.le_total q.start.toNat o with hqo | hoq
      · exact Text.lineStartAt_eq_of_lineFeeds_eq hqo (hk.symm.trans hk')
      · exact (Text.lineStartAt_eq_of_lineFeeds_eq hoq (hk'.symm.trans hk)).symm
    omega
  · rintro ⟨hl, hu⟩
    have hfeeds : t.lineFeeds q.start.toNat = t.lineFeeds o :=
      (Text.lineFeeds_eq_iff (by omega)).2 fun i hi hio => hline i (by omega) (by omega)
    have hstart := Text.lineStartAt_eq_of_lineFeeds_eq (by omega) hfeeds
    exact ⟨o - t.lineStartAt o, Text.standsAt_iff.2 ⟨hk.trans hfeeds, rfl⟩, by omega, by omega⟩

theorem Tells.before (h : k.Tells t q) (h' : k'.Tells t q') (h0 : 0 ≤ q.start)
    (hlt : q.start < q.stop) (hle : q.stop ≤ q'.start) : k.Before k' := by
  obtain ⟨hk, hcolumn⟩ := Text.standsAt_iff.1 h.stands
  obtain ⟨hk', hcolumn'⟩ := Text.standsAt_iff.1 h'.stands
  have hlength := h.length
  have hstart := t.lineStartAt_le q.start.toNat
  have hfeeds : t.lineFeeds q.start.toNat ≤ t.lineFeeds q'.start.toNat :=
    Text.lineFeeds_le (by omega)
  rcases Nat.lt_or_eq_of_le hfeeds with hlt' | heq
  · exact .inl (by omega)
  · have hsame := Text.lineStartAt_eq_of_lineFeeds_eq (by omega) heq
    exact .inr ⟨by omega, by omega⟩

end LineToken

namespace SemanticTokens

theorem length_encodeFrom (line column : Nat) (ks : List LineToken) :
    (encodeFrom line column ks).length = 5 * ks.length := by
  induction ks generalizing line column with
  | nil => rfl
  | cons k rest ih =>
    simp only [encodeFrom, List.length_append, List.length_cons, List.length_nil, ih]
    omega

/-- Where no token lies before the one that precedes it, no number is negative. -/
theorem nonneg_of_mem_encodeFrom {line column : Nat} {ks : List LineToken}
    (hfirst : ∀ k ∈ ks, line < k.line ∨ line = k.line ∧ column ≤ k.column)
    (hlength : ∀ k ∈ ks, 0 < k.length)
    (hpair : ks.Pairwise LineToken.Before) {x : Int} (hx : x ∈ encodeFrom line column ks) :
    0 ≤ x := by
  induction ks generalizing line column with
  | nil => simp [encodeFrom] at hx
  | cons k rest ih =>
    obtain ⟨hk, hpair⟩ := List.pairwise_cons.1 hpair
    have hpos := hlength k (List.mem_cons_self ..)
    have hplace := hfirst k (List.mem_cons_self ..)
    rcases List.mem_append.1 hx with hx | hx
    · simp only [List.mem_cons, List.not_mem_nil, or_false] at hx
      rcases hx with rfl | rfl | rfl | rfl | rfl
      · omega
      · split <;> omega
      · omega
      · exact Int.natCast_nonneg _
      · exact Int.le_refl 0
    · refine ih (fun k' hk' => ?_) (fun k' hk' => hlength k' (List.mem_cons_of_mem k hk')) hpair hx
      rcases hk k' hk' with hlt | ⟨heq, hle⟩
      · exact .inl hlt
      · exact .inr ⟨heq, by omega⟩

/-- What the data say of a classification: its pieces in order, by place, length and class. -/
structure Decoded (t : Text) (r : Classification) (data : List Int) (ks : List LineToken) :
    Prop where
  decode : decode data = some ks
  groups : data.length = 5 * ks.length
  nonneg : ∀ x ∈ data, 0 ≤ x
  pieces : ∃ f : Span → List Span,
    (∀ s ∈ r.spans, ((f s).Pairwise fun q q' => q.stop ≤ q'.start) ∧ ∀ q, q ∈ f s ↔ s.IsPiece t q) ∧
      List.Forall₂ (fun k q => k.Tells t q) ks (r.spans.flatMap f)
  length_pos : ∀ k ∈ ks, 0 < k.length
  apart : ks.Pairwise LineToken.Before
  covered : ∀ (o : Nat) (cls : TokenClass), (∃ k ∈ ks, k.cls = cls ∧ k.Covers t o) ↔
    (r.start ≤ o ∧ o < r.stop) ∧ r.classAt o = some cls ∧ t[o]? ≠ some '\n'

variable {tables : List CompiledTable} {c : Conventions} {t : Text} {a b : Nat}

theorem tells_ofPiece {q : Span} (hn : q.start ≤ t.size) :
    (ofPiece (LineIndex.ofText t) q).Tells t q where
  stands := by
    rw [Text.standsAt_iff]
    simp [ofPiece, token, LineIndex.position_ofText hn]
  length := rfl
  cls := rfl

theorem mem_map_pieces_iff {s q : Span} (h0 : 0 ≤ s.start) (hn : s.stop ≤ t.size) :
    (q ∈ (pieces t s.start s.stop).map fun p => (⟨p.1, p.2, s.cls⟩ : Span)) ↔ s.IsPiece t q := by
  rw [Span.isPiece_iff h0, List.mem_map]
  constructor
  · rintro ⟨⟨x, y⟩, hp, rfl⟩
    exact ⟨rfl, (mem_pieces h0 hn).1 hp⟩
  · rintro ⟨hcls, hr⟩
    exact ⟨(q.start, q.stop), (mem_pieces h0 hn).2 hr, by rw [← hcls]⟩

theorem mem_linePieces_iff_isPiece (hc : c.Advances) (ht : DistinctClasses tables)
    (hb : b ≤ t.size) {q : Span} :
    q ∈ linePieces t (.ofRange tables c t a b) ↔
      ∃ s ∈ (Classification.ofRange tables c t a b).spans, s.IsPiece t q := by
  rw [linePieces, List.mem_flatMap]
  refine exists_congr fun s => and_congr_right fun hs => ?_
  have hin := Classification.bounds_of_mem_spans hc ht hs
  exact mem_map_pieces_iff (by omega) (by omega)

theorem exists_mem_linePieces_iff (hc : c.Advances) (ht : DistinctClasses tables)
    (hb : b ≤ t.size) {o : Nat} {cls : TokenClass} :
    (∃ q ∈ linePieces t (.ofRange tables c t a b), q.cls = cls ∧ q.start ≤ o ∧ o < q.stop) ↔
      ((a : Int) ≤ o ∧ o < (b : Int)) ∧
      (Classification.ofRange tables c t a b).classAt o = some cls ∧
        t[o]? ≠ some '\n' := by
  rw [Classification.classAt_eq_some_iff hc ht]
  simp only [mem_linePieces_iff_isPiece hc ht hb]
  constructor
  · rintro ⟨q, ⟨s, hs, hq⟩, rfl, hl, hu⟩
    have hin := Classification.bounds_of_mem_spans hc ht hs
    have hin' := hq.inside
    exact ⟨by omega, ⟨s, hs, Span.covers_iff.2 (by omega), hq.cls.symm⟩, hq.one_line o hl hu⟩
  · rintro ⟨-, ⟨s, hs, hcov, rfl⟩, hlf⟩
    have hin := Classification.bounds_of_mem_spans hc ht hs
    have hcov := Span.covers_iff.1 hcov
    have hmark : IsRun.mask (visible t) (IsRun.within s.start s.stop) o = some () :=
      IsRun.mask_eq_some.2 ⟨by simpa [visible] using hlf, IsRun.within_eq_some.2 hcov⟩
    obtain ⟨x, y, hr, hx, hy⟩ :=
      IsRun.exists_mem ((IsRun.bounded_within s.start s.stop).mask (visible t)) hmark
    exact ⟨⟨x, y, s.cls⟩, ⟨s, hs, (Span.isPiece_iff (by omega)).2 ⟨rfl, hr⟩⟩, rfl, hx, hy⟩

theorem tells_of_mem_linePieces (hc : c.Advances) (ht : DistinctClasses tables)
    (hb : b ≤ t.size) {q : Span}
    (hq : q ∈ linePieces t (.ofRange tables c t a b)) :
    (ofPiece (LineIndex.ofText t) q).Tells t q := by
  have hin := bounds_of_mem_linePieces hc ht hb hq
  exact tells_ofPiece (by omega)

theorem length_pos_of_mem_tokens (hc : c.Advances) (ht : DistinctClasses tables)
    (hb : b ≤ t.size) {k : LineToken}
    (hk : k ∈ tokens t (.ofRange tables c t a b)) : 0 < k.length := by
  rw [tokens_eq_map_linePieces] at hk
  obtain ⟨q, hq, rfl⟩ := List.mem_map.1 hk
  have hin := bounds_of_mem_linePieces hc ht hb hq
  have hlength := (tells_of_mem_linePieces hc ht hb hq).length
  omega

theorem pairwise_tokens_before (hc : c.Advances) (ht : DistinctClasses tables) (hb : b ≤ t.size) :
    (tokens t (.ofRange tables c t a b)).Pairwise LineToken.Before := by
  rw [tokens_eq_map_linePieces]
  refine List.pairwise_map.2 ((pairwise_linePieces hc ht hb).imp_of_mem fun {q q'} hq hq' hle => ?_)
  have hin := bounds_of_mem_linePieces hc ht hb hq
  exact (tells_of_mem_linePieces hc ht hb hq).before (tells_of_mem_linePieces hc ht hb hq')
    (by omega) hin.2.1 hle

theorem exists_pieces_tokens (hc : c.Advances) (ht : DistinctClasses tables) (hb : b ≤ t.size) :
    ∃ f : Span → List Span,
      (∀ s ∈ (Classification.ofRange tables c t a b).spans,
        ((f s).Pairwise fun q q' => q.stop ≤ q'.start) ∧ ∀ q, q ∈ f s ↔ s.IsPiece t q) ∧
      List.Forall₂ (fun k q => k.Tells t q) (tokens t (.ofRange tables c t a b))
        ((Classification.ofRange tables c t a b).spans.flatMap f) := by
  refine ⟨fun s => (pieces t s.start s.stop).map fun p => ⟨p.1, p.2, s.cls⟩, fun s hs => ?_, ?_⟩
  · have hin := Classification.bounds_of_mem_spans hc ht hs
    exact ⟨List.pairwise_map.2 (pairwise_pieces (by omega) (by omega)),
      fun q => mem_map_pieces_iff (by omega) (by omega)⟩
  · rw [tokens_eq_map_linePieces, List.forall₂_map_left_iff]
    exact List.forall₂_same.2 fun q hq => tells_of_mem_linePieces hc ht hb hq

theorem exists_mem_tokens_iff (hc : c.Advances) (ht : DistinctClasses tables)
    (hb : b ≤ t.size) {o : Nat} {cls : TokenClass} :
    (∃ k ∈ tokens t (.ofRange tables c t a b), k.cls = cls ∧ k.Covers t o) ↔
      ∃ q ∈ linePieces t (.ofRange tables c t a b), q.cls = cls ∧ q.start ≤ o ∧ o < q.stop := by
  rw [tokens_eq_map_linePieces]
  have hcovers : ∀ q ∈ linePieces t (.ofRange tables c t a b),
      ((ofPiece (LineIndex.ofText t) q).Covers t o ↔ q.start ≤ o ∧ o < q.stop) := fun q hq => by
    obtain ⟨s, -, hpiece⟩ := (mem_linePieces_iff_isPiece hc ht hb).1 hq
    have hin := bounds_of_mem_linePieces hc ht hb hq
    exact (tells_of_mem_linePieces hc ht hb hq).covers_iff (by omega) hpiece.one_line
  constructor
  · rintro ⟨k, hk, rfl, hcov⟩
    obtain ⟨q, hq, rfl⟩ := List.mem_map.1 hk
    exact ⟨q, hq, rfl, (hcovers q hq).1 hcov⟩
  · rintro ⟨q, hq, rfl, hin⟩
    exact ⟨_, List.mem_map_of_mem hq, rfl, (hcovers q hq).2 hin⟩

theorem decoded_ofRange (hc : c.Advances) (ht : DistinctClasses tables) (hb : b ≤ t.size) :
    Decoded t (.ofRange tables c t a b) (encode t (.ofRange tables c t a b))
      (tokens t (.ofRange tables c t a b)) where
  decode := decode_encode t _
  groups := length_encodeFrom 0 0 _
  nonneg x hx := by
    refine nonneg_of_mem_encodeFrom (fun k _ => ?_)
      (fun k hk => length_pos_of_mem_tokens hc ht hb hk) (pairwise_tokens_before hc ht hb) hx
    omega
  pieces := exists_pieces_tokens hc ht hb
  length_pos k hk := length_pos_of_mem_tokens hc ht hb hk
  apart := pairwise_tokens_before hc ht hb
  covered _ _ := (exists_mem_tokens_iff hc ht hb).trans (exists_mem_linePieces_iff hc ht hb)

end SemanticTokens

namespace Mode

variable {m : Mode}

/-- The numbers of a classification tell its pieces, and nothing else. -/
theorem encode_decoded (hm : m.Scannable) (t : Text) (start : Int) (stop : Option Int) :
    ∃ r ks, m.classify t start stop = some r ∧
      SemanticTokens.Decoded t r (SemanticTokens.encode t r) ks := by
  obtain ⟨c, hc⟩ := hm.exists_reads
  exact ⟨_, _, hc.classify_eq t start stop,
    SemanticTokens.decoded_ofRange hc.advances m.distinctClasses_compiled (Text.clamp_snd_le _ _ _)⟩

theorem encode_decoded_blank_line :
    Mode.orson.Scannable ∧ ∃ r ks,
      Mode.orson.classify (Text.ofString "do ''a\n\nb''\nend") 0 none = some r ∧
        SemanticTokens.Decoded (Text.ofString "do ''a\n\nb''\nend") r
          (SemanticTokens.encode (Text.ofString "do ''a\n\nb''\nend") r) ks ∧
        ks = [⟨0, 0, 2, .clauseKeyword⟩, ⟨0, 3, 3, .string⟩, ⟨2, 0, 3, .string⟩,
          ⟨3, 0, 3, .clauseKeyword⟩] := by
  obtain ⟨r, ks, hr, hks⟩ :=
    encode_decoded scannable_orson (Text.ofString "do ''a\n\nb''\nend") 0 none
  have hspans : Mode.orson.classify (Text.ofString "do ''a\n\nb''\nend") 0 none =
      some ⟨0, 15, [⟨0, 2, .clauseKeyword⟩, ⟨3, 11, .string⟩, ⟨12, 15, .clauseKeyword⟩],
      [⟨.string, 3, 10, true⟩],
        [(3, .opening), (10, .closing)]⟩ := by decide +kernel
  obtain rfl := Option.some.inj (hr.symm.trans hspans)
  refine ⟨scannable_orson, _, ks, hr, hks, Option.some.inj (hks.decode.symm.trans ?_)⟩
  decide +kernel

end Mode

end OrsonHighlight
