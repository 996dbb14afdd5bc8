import Mathlib.Data.List.TakeWhile
import OrsonHighlight.Text.Lines

set_option autoImplicit false

namespace OrsonHighlight

namespace Text

variable {t : Text}

def lineFeeds (t : Text) (o : Nat) : Nat := (t.slice 0 o).count '\n'

@[simp] theorem lineFeeds_zero (t : Text) : t.lineFeeds 0 = 0 := by simp [lineFeeds, slice]

theorem lineFeeds_eq_count (t : Text) (o : Nat) : t.lineFeeds o = (t.toList.take o).count '\n' := by
  simp [lineFeeds, slice]

theorem lineFeeds_succ (t : Text) (o : Nat) :
    t.lineFeeds (o + 1) = t.lineFeeds o + if t[o]? = some '\n' then 1 else 0 := by
  rw [lineFeeds_eq_count, lineFeeds_eq_count, List.take_add_one, List.count_append,
    Array.getElem?_toList]
  cases t[o]? with
  | none => simp
  | some ch => simp [List.count_singleton]

theorem lineFeeds_le {p o : Nat} (h : p ≤ o) : t.lineFeeds p ≤ t.lineFeeds o := by
  induction o, h using Nat.le_induction with
  | base => exact Nat.le_refl _
  | succ o _ ih =>
    rw [lineFeeds_succ]
    omega

theorem lineFeeds_eq_iff {p o : Nat} (h : p ≤ o) :
    t.lineFeeds p = t.lineFeeds o ↔ ∀ i, p ≤ i → i < o → t[i]? ≠ some '\n' := by
  induction o, h using Nat.le_induction with
  | base => simp only [true_iff]; omega
  | succ o hpo ih =>
    have hle := lineFeeds_le (t := t) hpo
    rw [lineFeeds_succ]
    constructor
    · intro heq i hi hio
      by_cases hlf : t[o]? = some '\n'
      · rw [if_pos hlf] at heq
        omega
      · rw [if_neg hlf] at heq
        by_cases hlast : i = o
        · rwa [hlast]
        · exact ih.1 heq i hi (by omega)
    · intro hno
      rw [if_neg (hno o hpo (by omega)), ih.2 fun i hi hio => hno i hi (by omega)]
      omega

theorem lineStartAt_eq_iff {o x : Nat} : t.lineStartAt o = x ↔
    x ≤ o ∧ (x = 0 ∨ t[x - 1]? = some '\n') ∧ ∀ i, x ≤ i → i < o → t[i]? ≠ some '\n' := by
  induction o generalizing x with
  | zero =>
    rw [lineStartAt]
    constructor
    · rintro rfl
      exact ⟨Nat.le_refl 0, .inl rfl, by omega⟩
    · exact fun h => (Nat.le_zero.1 h.1).symm
  | succ o ih =>
    rw [lineStartAt]
    split
    · rename_i hlf
      constructor
      · rintro rfl
        exact ⟨Nat.le_refl _, .inr hlf, by omega⟩
      · rintro ⟨hx, -, hno⟩
        by_contra hne
        exact hno o (by omega) (by omega) hlf
    · rename_i hlf
      rw [ih]
      constructor
      · rintro ⟨hx, hmargin, hno⟩
        refine ⟨by omega, hmargin, fun i hi hio => ?_⟩
        by_cases hlast : i = o
        · rwa [hlast]
        · exact hno i hi (by omega)
      · rintro ⟨hx, hmargin, hno⟩
        refine ⟨?_, hmargin, fun i hi hio => hno i hi (by omega)⟩
        by_contra hgt
        obtain rfl : x = o + 1 := by omega
        rcases hmargin with hzero | hlf'
        · omega
        · exact hlf hlf'

theorem lineStartAt_eq_of_lineFeeds_eq {p o : Nat} (h : p ≤ o)
    (heq : t.lineFeeds p = t.lineFeeds o) :
    t.lineStartAt o = t.lineStartAt p := by
  obtain ⟨hle, hmargin, hno⟩ := lineStartAt_eq_iff.1 (rfl : t.lineStartAt p = t.lineStartAt p)
  refine lineStartAt_eq_iff.2 ⟨by omega, hmargin, fun i hi hio => ?_⟩
  by_cases hip : i < p
  · exact hno i hi hip
  · exact (lineFeeds_eq_iff h).1 heq i (by omega) hio

/-- The place of an offset: as many line feeds stand before it as the line says, and the column
counts from the last of them. -/
structure StandsAt (t : Text) (o line column : Nat) : Prop where
  line_eq : line = (t.slice 0 o).count '\n'
  column_le : column ≤ o
  margin : column = o ∨ t[o - column - 1]? = some '\n'
  same_line : ∀ i, o - column ≤ i → i < o → t[i]? ≠ some '\n'

theorem standsAt_iff {o line column : Nat} :
    t.StandsAt o line column ↔ line = t.lineFeeds o ∧ column = o - t.lineStartAt o := by
  constructor
  · rintro ⟨hline, hle, hmargin, hno⟩
    have hstart : t.lineStartAt o = o - column :=
      lineStartAt_eq_iff.2 ⟨by omega, hmargin.imp (by omega) id, hno⟩
    exact ⟨hline, by omega⟩
  · rintro ⟨hline, hcolumn⟩
    obtain ⟨hle, hmargin, hno⟩ := lineStartAt_eq_iff.1 (rfl : t.lineStartAt o = t.lineStartAt o)
    have hstart : o - column = t.lineStartAt o := by omega
    exact ⟨hline, by omega, by rw [hstart]; exact hmargin.imp (by omega) id, by rwa [hstart]⟩

end Text

namespace LineIndex

theorem lt_of_mem_startsFrom {p x : Nat} {cs : List Char} (h : x ∈ startsFrom p cs) : p < x := by
  induction cs generalizing p with
  | nil => simp [startsFrom] at h
  | cons ch rest ih =>
    rw [startsFrom] at h
    split at h
    · rcases List.mem_cons.1 h with rfl | h
      · omega
      · have hlt := ih h
        omega
    · have hlt := ih h
      omega

theorem length_takeWhile_startsFrom (p k : Nat) (cs : List Char) :
    ((startsFrom p cs).takeWhile (· ≤ p + k)).length = (cs.take k).count '\n' := by
  induction cs generalizing p k with
  | nil => simp [startsFrom]
  | cons ch rest ih =>
    cases k with
    | zero =>
      have hnone : (startsFrom p (ch :: rest)).takeWhile (fun x => decide (x ≤ p + 0)) = [] := by
        rw [List.takeWhile_eq_nil_iff]
        intro hpos
        have hlt := lt_of_mem_startsFrom (List.get_mem (startsFrom p (ch :: rest)) ⟨0, hpos⟩)
        simpa using hlt
      rw [hnone]
      rfl
    | succ k =>
      have ih := ih (p + 1) k
      rw [show p + 1 + k = p + (k + 1) by omega] at ih
      rw [startsFrom, List.take_succ_cons]
      split
      · rename_i hlf
        rw [List.takeWhile_cons_of_pos (by simp), List.length_cons, ih, hlf, List.count_cons_self]
      · rename_i hlf
        rw [ih, List.count_cons_of_ne (by simpa using hlf)]

theorem lineOf_ofText (t : Text) (o : Nat) : (ofText t).lineOf o = t.lineFeeds o := by
  have h := length_takeWhile_startsFrom 0 o t.toList
  rw [Nat.zero_add] at h
  rw [lineOf, ofText, List.takeWhile_cons_of_pos (by simp), List.length_cons, h,
    Text.lineFeeds_eq_count]
  omega

theorem getElem?_startsFrom {cs : List Char} {k : Nat} (p : Nat) (h : cs[k]? = some '\n') :
    (startsFrom p cs)[(cs.take k).count '\n']? = some (p + k + 1) := by
  induction cs generalizing p k with
  | nil => simp at h
  | cons ch rest ih =>
    cases k with
    | zero =>
      obtain rfl : ch = '\n' := by simpa using h
      simp [startsFrom]
    | succ k =>
      have ih := ih (p + 1) (k := k) (by simpa using h)
      rw [startsFrom, List.take_succ_cons]
      split
      · rename_i hlf
        rw [hlf, List.count_cons_self, List.getElem?_cons_succ, ih]
        congr 1
        omega
      · rename_i hlf
        rw [List.count_cons_of_ne (by simpa using hlf), ih]
        congr 1
        omega

theorem startOf_lineFeeds (t : Text) (o : Nat) :
    (ofText t).startOf (t.lineFeeds o) = t.lineStartAt o := by
  induction o with
  | zero => simp [startOf, ofText, Text.lineStartAt]
  | succ o ih =>
    rw [Text.lineFeeds_succ, Text.lineStartAt]
    split
    · rename_i hlf
      have h : (startsFrom 0 t.toList)[(t.toList.take o).count '\n']? = some (0 + o + 1) :=
        getElem?_startsFrom 0 (by rwa [Array.getElem?_toList])
      rw [startOf, ofText, List.getElem?_cons_succ, Text.lineFeeds_eq_count, h, Option.getD_some]
      omega
    · exact ih

theorem position_ofText {t : Text} {o : Int} (hn : o ≤ t.size) : (ofText t).position o =
    ⟨t.lineFeeds o.toNat + 1, o.toNat - t.lineStartAt o.toNat + 1, o.toNat⟩ := by
  have hmin : min o.toNat (ofText t).size = o.toNat := by
    simp only [ofText]
    omega
  simp only [position, hmin, lineOf_ofText, startOf_lineFeeds]

theorem length_startsFrom (p : Nat) (cs : List Char) :
    (startsFrom p cs).length = cs.count '\n' := by
  induction cs generalizing p with
  | nil => rfl
  | cons ch rest ih =>
    rw [startsFrom, List.count_cons]
    split <;> simp_all

theorem lt_of_getElem?_startsFrom {cs : List Char} {p k next : Nat}
    (h : (startsFrom p cs)[(cs.take k).count '\n']? = some next) : p + k < next := by
  induction cs generalizing p k with
  | nil => simp [startsFrom] at h
  | cons ch rest ih =>
    cases k with
    | zero => exact lt_of_mem_startsFrom (List.mem_of_getElem? h)
    | succ k =>
      rw [startsFrom, List.take_succ_cons] at h
      split at h
      · rename_i hlf
        rw [hlf, List.count_cons_self, List.getElem?_cons_succ] at h
        have hlt := ih h
        omega
      · rename_i hlf
        rw [List.count_cons_of_ne (by simpa using hlf)] at h
        have hlt := ih h
        omega

theorem nearest_lineFeeds (t : Text) (o : Nat) :
    (ofText t).nearest (t.lineFeeds o + 1) = t.lineFeeds o := by
  have hle : (t.toList.take o).count '\n' ≤ t.toList.count '\n' :=
    (List.take_sublist o t.toList).count_le '\n'
  simp only [nearest, lineCount, ofText, List.length_cons, length_startsFrom,
    Text.lineFeeds_eq_count]
  omega

theorem le_lineEnd {t : Text} {o : Nat} (ho : o ≤ t.size) :
    o ≤ (ofText t).lineEnd (t.lineFeeds o + 1) := by
  rw [lineEnd, nearest_lineFeeds]
  split
  · rename_i next hnext
    rw [ofText, List.getElem?_cons_succ, Text.lineFeeds_eq_count] at hnext
    have hlt := lt_of_getElem?_startsFrom hnext
    omega
  · exact ho

theorem offset_position {t : Text} {o : Nat} (ho : o ≤ t.size) :
    (ofText t).offset ((ofText t).position o).line ((ofText t).position o).column = o := by
  have hle := t.lineStartAt_le o
  have hend := le_lineEnd ho
  rw [position_ofText (Int.ofNat_le.2 ho)]
  simp only [Int.toNat_natCast, offset, lineStart, Int.natCast_add, Int.cast_ofNat_Int,
    nearest_lineFeeds, startOf_lineFeeds]
  omega

end LineIndex

end OrsonHighlight
