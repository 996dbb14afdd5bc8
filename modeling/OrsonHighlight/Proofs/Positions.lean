import OrsonHighlight.Proofs.LineNumbers

set_option autoImplicit false

namespace OrsonHighlight

def Position.Before (p q : Position) : Prop :=
  p.line < q.line ∨ p.line = q.line ∧ p.column < q.column

namespace LineIndex

variable {t : Text}

theorem lineCount_ofText (t : Text) : (ofText t).lineCount = t.lineFeeds t.size + 1 := by
  have hwhole : t.toList.take t.size = t.toList := List.take_of_length_le (by simp)
  simp [lineCount, ofText, length_startsFrom, Text.lineFeeds_eq_count, hwhole]

theorem exists_of_getElem?_startsFrom {cs : List Char} {p n x : Nat}
    (h : (startsFrom p cs)[n]? = some x) :
    ∃ k, x = p + k + 1 ∧ cs[k]? = some '\n' ∧ (cs.take k).count '\n' = n := by
  induction cs generalizing p n with
  | nil => simp [startsFrom] at h
  | cons ch rest ih =>
    rw [startsFrom] at h
    split at h
    · rename_i hlf
      cases n with
      | zero => exact ⟨0, by simp at h; omega, by simp [hlf], rfl⟩
      | succ n =>
        obtain ⟨k, hx, hk, hcount⟩ := ih (by simpa using h)
        exact ⟨k + 1, by omega, by simpa using hk, by simp [hlf, hcount]⟩
    · rename_i hlf
      obtain ⟨k, hx, hk, hcount⟩ := ih h
      exact ⟨k + 1, by omega, by simpa using hk, by simp [hlf, hcount]⟩

theorem exists_of_getElem?_starts {n x : Nat} (h : (ofText t).starts[n + 1]? = some x) :
    ∃ k, x = k + 1 ∧ k < t.size ∧ t[k]? = some '\n' ∧ t.lineFeeds k = n := by
  obtain ⟨k, hx, hk, hcount⟩ := exists_of_getElem?_startsFrom (p := 0) (by simpa [ofText] using h)
  rw [Array.getElem?_toList] at hk
  exact ⟨k, by omega, (Array.getElem?_eq_some_iff.1 hk).1,
    hk, by rw [Text.lineFeeds_eq_count, hcount]⟩

theorem nearest_lt_lineCount (t : Text) (line : Int) :
    (ofText t).nearest line < (ofText t).lineCount := by
  simp only [nearest, lineCount_ofText]
  omega

/-- The text from `a` up to `b` is line `n`, counted from zero, without its line feed. -/
structure IsLine (t : Text) (n a b : Nat) : Prop where
  margin : t.StandsAt a n 0
  le : a ≤ b
  same_line : ∀ i, a ≤ i → i < b → t[i]? ≠ some '\n'
  ending : b = t.size ∨ b < t.size ∧ t[b]? = some '\n'

theorem startOf_of_lt {n : Nat} (hn : n < (ofText t).lineCount) :
    (ofText t).startOf n ≤ t.size ∧ t.StandsAt ((ofText t).startOf n) n 0 := by
  cases n with
  | zero => exact ⟨by simp [startOf, ofText], by simp [startOf, ofText, Text.standsAt_iff]⟩
  | succ n =>
    have hx : (ofText t).starts[n + 1]? = some ((ofText t).starts[n + 1]) :=
      List.getElem?_eq_getElem hn
    obtain ⟨k, hk, hsize, hlf, hcount⟩ := exists_of_getElem?_starts hx
    rw [startOf, hx, Option.getD_some, hk]
    exact ⟨hsize, by simp [Text.standsAt_iff, Text.lineFeeds_succ, Text.lineStartAt, hlf, hcount]⟩

theorem lineEnd_ofText (t : Text) (line : Int) :
    t.lineFeeds ((ofText t).lineEnd line) = (ofText t).nearest line ∧
      ((ofText t).lineEnd line = t.size ∨
      (ofText t).lineEnd line < t.size ∧ t[(ofText t).lineEnd line]? = some '\n') := by
  rw [lineEnd]
  split
  · rename_i next hnext
    obtain ⟨k, rfl, hsize, hlf, hcount⟩ := exists_of_getElem?_starts hnext
    exact ⟨hcount, .inr ⟨hsize, hlf⟩⟩
  · rename_i hnone
    have hle : (ofText t).lineCount ≤ (ofText t).nearest line + 1 :=
      List.getElem?_eq_none_iff.1 hnone
    have hlt := nearest_lt_lineCount t line
    rw [lineCount_ofText] at hle hlt
    exact ⟨show t.lineFeeds t.size = _ by omega, .inl rfl⟩

theorem isLine_ofText (t : Text) (line : Int) :
    IsLine t ((ofText t).nearest line) ((ofText t).lineStart line) ((ofText t).lineEnd line) := by
  obtain ⟨hsize, hmargin⟩ := startOf_of_lt (nearest_lt_lineCount t line)
  obtain ⟨hlast, hending⟩ := lineEnd_ofText t line
  have hfirst : t.lineFeeds ((ofText t).lineStart line) = (ofText t).nearest line :=
    hmargin.line_eq.symm
  have hle : (ofText t).lineStart line ≤ (ofText t).lineEnd line := by
    by_contra hlt
    rcases hending with heq | ⟨-, hlf⟩
    · exact hlt (heq ▸ hsize)
    · -- past the line feed at its end a start would be that of a later line
      have hle := Text.lineFeeds_le (t := t)
        (show (ofText t).lineEnd line + 1 ≤ (ofText t).lineStart line by omega)
      rw [Text.lineFeeds_succ, if_pos hlf, hlast, hfirst] at hle
      omega
  exact ⟨hmargin, hle, (Text.lineFeeds_eq_iff hle).1 (hfirst.trans hlast.symm), hending⟩

theorem IsLine.standsAt {n a b o : Nat} (h : IsLine t n a b) (ha : a ≤ o) (hb : o ≤ b) :
    t.StandsAt o n (o - a) := by
  have heq : t.lineFeeds a = t.lineFeeds o :=
    (Text.lineFeeds_eq_iff ha).2 fun i hi hio => h.same_line i hi (by omega)
  obtain ⟨hline, hmargin⟩ := Text.standsAt_iff.1 h.margin
  have hle := t.lineStartAt_le a
  refine Text.standsAt_iff.2 ⟨hline.trans heq, ?_⟩
  rw [Text.lineStartAt_eq_of_lineFeeds_eq ha heq]
  omega

theorem position_of_standsAt {o line column : Nat} (ho : o ≤ t.size)
    (h : t.StandsAt o line column) :
    (ofText t).position o = ⟨line + 1, column + 1, o⟩ := by
  obtain ⟨rfl, rfl⟩ := Text.standsAt_iff.1 h
  exact position_ofText (Int.ofNat_le.2 ho)

theorem position_clamp (t : Text) (o : Int) :
    (ofText t).position o = (ofText t).position (min o.toNat t.size : Nat) := by
  have hsize : (ofText t).size = t.size := rfl
  simp only [position, hsize, Int.toNat_natCast, Nat.min_assoc, Nat.min_self]

theorem before_of_lt {o o' : Nat} (hlt : o < o') (ho' : o' ≤ t.size) :
    ((ofText t).position o).Before ((ofText t).position o') := by
  have hle := Text.lineFeeds_le (t := t) hlt.le
  have hstart := t.lineStartAt_le o
  rw [position_ofText (by omega), position_ofText (by omega)]
  simp only [Position.Before, Int.toNat_natCast]
  by_cases heq : t.lineFeeds o = t.lineFeeds o'
  · have hsame := Text.lineStartAt_eq_of_lineFeeds_eq hlt.le heq
    omega
  · omega

/-- What an index says of a text: how many lines there are and where they lie, the place of every
offset and the way back, the place that a line and a column of any size come to, and the order of
places. -/
structure Charts (ix : LineIndex) (t : Text) : Prop where
  lineCount : ix.lineCount = (t.slice 0 t.size).count '\n' + 1
  line : ∀ line : Int, ∃ n : Nat, (n + 1 : Int) = max 1 (min line ix.lineCount) ∧
    IsLine t n (ix.lineStart line) (ix.lineEnd line)
  place : ∀ o : Int, ∃ k line column : Nat, (k : Int) = max 0 (min o t.size) ∧
    ix.position o = ⟨line + 1, column + 1, k⟩ ∧ t.StandsAt k line column ∧
    ix.offset (line + 1) (column + 1) = k ∧ ix.lineStart (line + 1) = t.lineStart o
  nearest : ∀ line column l : Int, l = max 1 (min line ix.lineCount) →
    ((ix.position (ix.offset line column)).line : Int) = l ∧
    ((ix.position (ix.offset line column)).column : Int) =
      min (max column 1) ((ix.lineEnd l : Int) - ix.lineStart l + 1)
  ascending : ∀ o o' : Int, max 0 (min o t.size) < max 0 (min o' t.size) →
    (ix.position o).Before (ix.position o')

theorem nearest_add_one (t : Text) (line : Int) :
    ((ofText t).nearest line + 1 : Int) = max 1 (min line (ofText t).lineCount) := by
  simp only [nearest, lineCount_ofText]
  omega

theorem nearest_clamp (t : Text) (line : Int) :
    (ofText t).nearest (max 1 (min line (ofText t).lineCount)) = (ofText t).nearest line := by
  simp only [nearest, lineCount_ofText]
  omega

theorem position_offset (t : Text) (line column : Int) :
    (ofText t).position ((ofText t).offset line column) =
      ⟨(ofText t).nearest line + 1, (ofText t).offset line column - (ofText t).lineStart line + 1,
        (ofText t).offset line column⟩ := by
  have hline := isLine_ofText t line
  have hsize : (ofText t).lineEnd line ≤ t.size := by
    rcases hline.ending with heq | ⟨hlt, -⟩
    · exact heq.le
    · exact hlt.le
  have hend : (ofText t).offset line column ≤ (ofText t).lineEnd line := Nat.min_le_right _ _
  have hstart : (ofText t).lineStart line ≤ (ofText t).offset line column :=
    Nat.le_min.2 ⟨Nat.le_add_right _ _, hline.le⟩
  exact position_of_standsAt (hend.trans hsize) (hline.standsAt hstart hend)

theorem charts_ofText (t : Text) : (ofText t).Charts t where
  lineCount := lineCount_ofText t
  line line := ⟨_, nearest_add_one t line, isLine_ofText t line⟩
  place o := by
    have hk : min o.toNat t.size ≤ t.size := Nat.min_le_right _ _
    have hback := offset_position hk
    have hplace : t.StandsAt (min o.toNat t.size) _ _ := Text.standsAt_iff.2 ⟨rfl, rfl⟩
    rw [position_of_standsAt hk hplace] at hback
    refine ⟨_, _, _, by omega, (position_clamp t o).trans (position_of_standsAt hk hplace),
      hplace, hback, ?_⟩
    rw [lineStart, nearest_lineFeeds, startOf_lineFeeds]
    rfl
  nearest line column l hl := by
    have hle := (isLine_ofText t line).le
    have hstart : (ofText t).lineStart l = (ofText t).lineStart line := by
      rw [hl, lineStart, nearest_clamp, ← lineStart]
    have hend : (ofText t).lineEnd l = (ofText t).lineEnd line := by
      rw [hl, lineEnd, nearest_clamp, ← lineEnd]
    rw [position_offset, hstart, hend, hl]
    refine ⟨nearest_add_one t line, ?_⟩
    simp only [offset]
    omega
  ascending o o' hlt := by
    rw [position_clamp t o, position_clamp t o']
    exact before_of_lt (by omega) (Nat.min_le_right _ _)

end LineIndex

end OrsonHighlight
