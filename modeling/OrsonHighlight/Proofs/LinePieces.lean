import OrsonHighlight.Editor.SemanticTokens
import OrsonHighlight.Proofs.Compositing
import OrsonHighlight.Proofs.LineNumbers

set_option autoImplicit false

namespace OrsonHighlight

theorem LineIndex.startOf_lineOf_le (t : Text) (o : Nat) :
    (ofText t).startOf ((ofText t).lineOf o) ≤ o := by
  rw [lineOf_ofText, startOf_lineFeeds]
  exact t.lineStartAt_le o

theorem LineIndex.le_of_mem_startsFrom {p x : Nat} {cs : List Char} (h : x ∈ startsFrom p cs) :
    x ≤ p + cs.length := by
  induction cs generalizing p with
  | nil => simp [startsFrom] at h
  | cons ch rest ih =>
    rw [List.length_cons]
    unfold startsFrom at h
    split at h
    · rcases List.mem_cons.1 h with rfl | h
      · omega
      · have hle := ih h
        omega
    · have hle := ih h
      omega

theorem LineIndex.offset_le_size (t : Text) (line column : Int) :
    (ofText t).offset line column ≤ t.size := by
  refine Nat.le_trans (Nat.min_le_right _ _) ?_
  unfold lineEnd
  split
  · rename_i next hnext
    have hmem := List.mem_of_getElem? hnext
    rw [ofText, List.mem_cons] at hmem
    rcases hmem with rfl | hmem
    · omega
    · have hle := le_of_mem_startsFrom hmem
      simp only [Array.length_toList] at hle
      omega
  · exact Nat.le_refl _

theorem Text.lineStart_le_size (t : Text) (o : Int) : t.lineStart o ≤ t.size :=
  Nat.le_trans (t.lineStartAt_le _) (Nat.min_le_right _ _)

namespace SemanticTokens

variable {t : Text}

def visible (t : Text) (o : Int) : Bool := t[o.toNat]? != some '\n'

theorem visible_eq_true {a b : Int} (ha : 0 ≤ a)
    (h : ∀ j : Nat, a.toNat ≤ j → j < b.toNat → (t[j]? == some '\n') = false) (o : Int)
    (hao : a ≤ o) (hob : o < b) :
    visible t o = true := by
  simpa [visible] using h o.toNat (by omega) (by omega)

theorem mem_pieces {a b p q : Int} (ha : 0 ≤ a) (hb : b ≤ t.size) :
    (p, q) ∈ pieces t a b ↔ IsRun (IsRun.mask (visible t) (IsRun.within a b)) () p q := by
  fun_induction pieces t a b with
  | case1 a hlt hnl =>
    rw [Text.bound_eq_toNat ha (by omega), Text.bound_eq_toNat (by omega) hb] at hnl
    rw [IsRun.mask_within_of_all (visible_eq_true ha (Text.firstBetween_eq_none hnl)),
      IsRun.within_iff]
    simp [hlt]
  | case2 a hlt nl hnl ih =>
    rw [Text.bound_eq_toNat ha (by omega), Text.bound_eq_toNat (by omega) hb] at hnl
    obtain ⟨hle, hnb, hnl, hno⟩ := Text.firstBetween_eq_some hnl
    have hvis := visible_eq_true (b := nl) ha fun j hj hj' => hno j hj (by omega)
    rw [show max (nl : Int) a + 1 = nl + 1 by omega] at ih ⊢
    have ih : (p, q) ∈ pieces t (nl + 1) b ↔
        IsRun (IsRun.mask (visible t) (IsRun.within (nl + 1) b)) () p q := ih (by omega)
    rw [List.mem_append, ih, IsRun.mask_within_of_gap (by omega) (by omega) hvis
      (by simpa [visible] using hnl)]
    split
    · rename_i han
      simp [han]
    · rename_i han
      simp [han]
  | case3 a hge =>
    constructor
    · simp
    · intro hr
      have hb := hr.bounds ((IsRun.bounded_within a b).mask (visible t))
      omega

theorem bounds_of_mem_pieces {a b : Int} (ha : 0 ≤ a) (hb : b ≤ t.size) {p : Int × Int}
    (hp : p ∈ pieces t a b) : a ≤ p.1 ∧ p.1 < p.2 ∧ p.2 ≤ b :=
  ((mem_pieces ha hb).1 hp).bounds ((IsRun.bounded_within a b).mask (visible t))

theorem pairwise_pieces {a b : Int} (ha : 0 ≤ a) (hb : b ≤ t.size) :
    (pieces t a b).Pairwise fun p p' => p.2 ≤ p'.1 := by
  fun_induction pieces t a b with
  | case1 a hlt hnl => simp
  | case2 a hlt nl hnl ih =>
    refine List.pairwise_append.2 ⟨by split <;> simp, ih (by omega), fun p hp p' hp' => ?_⟩
    have hlow := (bounds_of_mem_pieces (by omega) hb hp').1
    split at hp
    · rw [List.mem_singleton] at hp
      rw [hp]
      dsimp only
      omega
    · simp at hp
  | case3 => exact List.Pairwise.nil

def linePieces (t : Text) (r : Classification) : List Span :=
  r.spans.flatMap fun s => (pieces t s.start s.stop).map fun p => ⟨p.1, p.2, s.cls⟩

section Classified

variable {tables : List CompiledTable} {c : Conventions} {a b : Nat}

theorem mem_linePieces (hc : c.Advances) (ht : DistinctClasses tables)
    (hb : b ≤ t.size) {s : Span} :
    s ∈ linePieces t (.ofRange tables c t a b) ↔ ∃ k, k.2 = s.cls ∧
      IsRun (IsRun.mask (visible t) (Classification.showing tables c t a b)) k s.start s.stop := by
  have hbounded := Classification.bounded_showing tables c t a b
  simp only [linePieces, List.mem_flatMap, List.mem_map]
  constructor
  · rintro ⟨s', hs', ⟨p, q⟩, hp, rfl⟩
    obtain ⟨hlow, -, hhigh⟩ := Classification.bounds_of_mem_spans hc ht hs'
    obtain ⟨k, hk, hr⟩ := (Classification.mem_spans_ofRange hc ht).1 hs'
    have hp := (mem_pieces (by omega) (by omega)).1 hp
    exact ⟨k, hk, (IsRun.mask_iff hbounded).2 ⟨s'.start, s'.stop, hr, hp⟩⟩
  · rintro ⟨k, hk, hr⟩
    obtain ⟨x, y, hr', hp⟩ := (IsRun.mask_iff hbounded).1 hr
    obtain ⟨hlow, -, hhigh⟩ := hr'.bounds hbounded
    have hp := (mem_pieces (by omega) (by omega)).2 hp
    exact ⟨⟨x, y, k.2⟩, (Classification.mem_spans_ofRange hc ht).2 ⟨k, rfl, hr'⟩,
      (s.start, s.stop), hp, by rw [hk]⟩

theorem bounds_of_mem_linePieces (hc : c.Advances) (ht : DistinctClasses tables)
    (hb : b ≤ t.size) {s : Span}
    (hs : s ∈ linePieces t (.ofRange tables c t a b)) :
    (a : Int) ≤ s.start ∧ s.start < s.stop ∧ s.stop ≤ b := by
  obtain ⟨k, -, hr⟩ := (mem_linePieces hc ht hb).1 hs
  exact hr.bounds ((Classification.bounded_showing tables c t a b).mask (visible t))

theorem pairwise_linePieces (hc : c.Advances) (ht : DistinctClasses tables) (hb : b ≤ t.size) :
    (linePieces t (.ofRange tables c t a b)).Pairwise fun s s' => s.stop ≤ s'.start := by
  have hin : ∀ s ∈ (Classification.ofRange tables c t a b).spans, 0 ≤ s.start ∧
      s.stop ≤ t.size := fun s hs => by
    obtain ⟨hlow, -, hhigh⟩ := Classification.bounds_of_mem_spans hc ht hs
    omega
  refine List.pairwise_flatMap.2 ⟨fun s hs => ?_, ?_⟩
  · exact List.pairwise_map.2 (pairwise_pieces (hin s hs).1 (hin s hs).2)
  · refine (Classification.pairwise_spans_ofRange tables c t a b).imp_of_mem
      fun {s s'} hs hs' hle => ?_
    intro x hx x' hx'
    obtain ⟨p, hp, rfl⟩ := List.mem_map.1 hx
    obtain ⟨p', hp', rfl⟩ := List.mem_map.1 hx'
    have hb := bounds_of_mem_pieces (hin s hs).1 (hin s hs).2 hp
    have hb' := bounds_of_mem_pieces (hin s' hs').1 (hin s' hs').2 hp'
    dsimp only
    omega

end Classified

def ofPiece (ix : LineIndex) (s : Span) : LineToken := token ix s.cls (s.start, s.stop)

theorem tokens_eq_map_linePieces (t : Text) (r : Classification) :
    tokens t r = (linePieces t r).map (ofPiece (LineIndex.ofText t)) := by
  simp [tokens, linePieces, ofPiece, List.map_flatMap, Function.comp_def]
  rfl

/-- The offsets that a token stands for. -/
def pieceOf (ix : LineIndex) (k : LineToken) : Span :=
  let start : Int := ix.startOf k.line + k.column
  ⟨start, start + k.length, k.cls⟩

theorem pieceOf_ofPiece {s : Span} (h0 : 0 ≤ s.start) (hn : s.start ≤ t.size) :
    pieceOf (LineIndex.ofText t) (ofPiece (LineIndex.ofText t) s) = s := by
  have hle := LineIndex.startOf_lineOf_le t s.start.toNat
  have hmin : min s.start.toNat (LineIndex.ofText t).size = s.start.toNat := by
    simp only [LineIndex.ofText]
    omega
  obtain ⟨start, stop, cls⟩ := s
  dsimp only at h0 hn hle hmin
  -- the column is counted from the start of the line, which is not past the offset
  simp only [pieceOf, ofPiece, token, LineIndex.position, hmin, Nat.add_sub_cancel,
    Span.mk.injEq, and_true]
  omega

def clipSpan (lo hi : Int) (s : Span) : Option Span :=
  if max s.start lo < min s.stop hi then some ⟨max s.start lo, min s.stop hi, s.cls⟩ else none

def clipToken (ix : LineIndex) (lo hi : Int) (k : LineToken) : Option LineToken :=
  (clipSpan lo hi (pieceOf ix k)).map (ofPiece ix)

theorem filterMap_clipToken {ss : List Span} (h : ∀ s ∈ ss, 0 ≤ s.start ∧ s.start ≤ t.size)
    (lo hi : Int) :
    (ss.map (ofPiece (LineIndex.ofText t))).filterMap (clipToken (LineIndex.ofText t) lo hi) =
      (ss.filterMap (clipSpan lo hi)).map (ofPiece (LineIndex.ofText t)) := by
  rw [List.filterMap_map, List.map_filterMap]
  refine List.filterMap_congr fun s hs => ?_
  rw [Function.comp_apply, clipToken, pieceOf_ofPiece (h s hs).1 (h s hs).2]

theorem map_ofPiece_inj {ss ss' : List Span} (h : ∀ s ∈ ss, 0 ≤ s.start ∧ s.start ≤ t.size)
    (h' : ∀ s ∈ ss', 0 ≤ s.start ∧ s.start ≤ t.size) :
    ss.map (ofPiece (LineIndex.ofText t)) = ss'.map (ofPiece (LineIndex.ofText t)) ↔ ss = ss' := by
  have back : ∀ {us : List Span}, (∀ s ∈ us, 0 ≤ s.start ∧ s.start ≤ t.size) →
      (us.map (ofPiece (LineIndex.ofText t))).map (pieceOf (LineIndex.ofText t)) = us :=
      fun {us} hus => by
    rw [List.map_map]
    exact (List.map_congr_left fun s hs => pieceOf_ofPiece (hus s hs).1 (hus s hs).2).trans
      (List.map_id us)
  constructor
  · intro heq
    rw [← back h, heq, back h']
  · exact congrArg _

/-- Tokens from groups of five numbers, by running sums. -/
def decodeFrom (line column : Nat) : List Int → Option (List LineToken)
  | [] => some []
  | deltaLine :: deltaStart :: length :: type :: _ :: rest => do
    let line' := (line + deltaLine).toNat
    let column' := (if deltaLine = 0 then column + deltaStart else deltaStart).toNat
    let cls ← TokenClass.all[type.toNat]?
    let later ← decodeFrom line' column' rest
    return ⟨line', column', length, cls⟩ :: later
  | _ => none

def decode (data : List Int) : Option (List LineToken) := decodeFrom 0 0 data

theorem decodeFrom_encodeFrom (line column : Nat) (ks : List LineToken) :
    decodeFrom line column (encodeFrom line column ks) = some ks := by
  induction ks generalizing line column with
  | nil => rfl
  | cons k rest ih =>
    obtain ⟨l, col, length, cls⟩ := k
    have hline : ((line : Int) + (l - line)).toNat = l := by omega
    have hcolumn : (if (l : Int) - line = 0 then (column : Int) +
        (if l = line then (col : Int) - column else col)
        else (if l = line then (col : Int) - column else col)).toNat =
          col := by
      by_cases h : l = line
      · rw [if_pos (by omega), if_pos h]
        omega
      · rw [if_neg (by omega), if_neg h]
        omega
    simp only [encodeFrom, decodeFrom, List.cons_append, List.nil_append, hline, hcolumn,
      Int.toNat_natCast, TokenClass.all_getElem?_index, ih, Option.pure_def,
      Option.bind_eq_bind, Option.bind_some]

theorem decode_encode (t : Text) (r : Classification) : decode (encode t r) = some (tokens t r) :=
  decodeFrom_encodeFrom 0 0 _

end SemanticTokens

end OrsonHighlight
