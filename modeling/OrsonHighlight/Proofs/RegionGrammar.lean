import OrsonHighlight.Proofs.Sweep
import OrsonHighlight.Region.Scan

/-!
The language of strings and comments. A text is a row of regions, broken literals and gaps without a
trigger, and the scan finds the regions of that row. The grammar alone says which rows there are,
and all have the same regions.
-/

set_option autoImplicit false

namespace OrsonHighlight

namespace Text

def rangeEnd (t : Text) : Option Int → Int
  | none => t.size
  | some b => min b t.size

theorem firstBetween_eq_some_iff {f : Nat → Bool} {p stop i : Nat} :
    firstBetween f p stop = some i ↔ p ≤ i ∧ i < stop ∧ f i = true ∧
      ∀ j, p ≤ j → j < i → f j = false := by
  constructor
  · exact firstBetween_eq_some
  · rintro ⟨hp, hs, hf, hb⟩
    cases h : firstBetween f p stop with
    | none => simp [firstBetween_eq_none h i hp hs] at hf
    | some j =>
      obtain ⟨hp', hs', hf', hb'⟩ := firstBetween_eq_some h
      rcases Nat.lt_trichotomy i j with hlt | rfl | hlt
      · simp [hb' i hp hlt] at hf
      · rfl
      · simp [hb j hp' hlt] at hf'

theorem firstBetween_eq_none_iff {f : Nat → Bool} {p stop : Nat} :
    firstBetween f p stop = none ↔ ∀ j, p ≤ j → j < stop → f j = false := by
  constructor
  · exact firstBetween_eq_none
  · intro hb
    cases h : firstBetween f p stop with
    | none => rfl
    | some j =>
      obtain ⟨hp, hs, hf, -⟩ := firstBetween_eq_some h
      simp [hb j hp hs] at hf

end Text

namespace Conventions

variable {c : Conventions} {t : Text}

/-- Reading moves on at every trigger: that of comments is not empty and does not begin with a line
end. -/
structure Advances (c : Conventions) : Prop where
  comment_ne_nil : c.comment ≠ []
  head : ∀ ch, c.comment.head? = some ch → isLineEnd ch = false

def StringAt (c : Conventions) (t : Text) (p : Nat) : Prop :=
  t.occursAt p c.delimiter = true ∧ t.occursAt p c.comment = false

def TriggerAt (c : Conventions) (t : Text) (p : Nat) : Prop :=
  t.occursAt p c.comment = true ∨ t.occursAt p c.delimiter = true

def QuoteFree (c : Conventions) (t : Text) (a b : Nat) : Prop :=
  ∀ i, a ≤ i → i < b → t[i]? ≠ some c.quote

def OneLine (t : Text) (a b : Nat) : Prop :=
  ∀ i, a ≤ i → i < b → ∀ ch, t[i]? = some ch → isLineEnd ch = false

def LineEndsAt (t : Text) (e : Nat) : Prop :=
  e = t.size ∨ ∃ ch, t[e]? = some ch ∧ isLineEnd ch = true

/-- Comments to the end of the line, strings closed before the first quote character that is no
delimiter, and strings that no quote character follows. -/
inductive IsRegion (c : Conventions) (t : Text) : Region → Prop where
  | comment {p e : Nat} : t.occursAt p c.comment = true → p < e → e ≤ t.size → OneLine t p e →
      LineEndsAt t e → IsRegion c t ⟨.comment, p, e, true⟩
  | closed {p q : Nat} : c.StringAt t p → p + c.width ≤ q → c.QuoteFree t (p + c.width) q →
      t.occursAt q c.delimiter = true → IsRegion c t ⟨.string, p, (q + c.width - 1 : Nat), true⟩
  | unclosed {p : Nat} : c.StringAt t p → c.QuoteFree t (p + c.width) t.size →
      IsRegion c t ⟨.string, p, t.size, false⟩

/-- Where reading goes on after a lone quote character: past the next delimiter, or else past the
character. -/
def ResumesAt (c : Conventions) (t : Text) (lone r : Nat) : Prop :=
  (∃ k, lone < k ∧ t.occursAt k c.delimiter = true ∧
      (∀ i, lone < i → i < k → t.occursAt i c.delimiter = false) ∧ r = k + c.width) ∨
    ((∀ i, lone < i → t.occursAt i c.delimiter = false) ∧ r = lone + 1)

/-- A literal that holds a lone quote character, from its delimiter to where reading goes on. -/
def IsBroken (c : Conventions) (t : Text) (a r : Nat) : Prop :=
  c.StringAt t a ∧ ∃ lone, a + c.width ≤ lone ∧ c.QuoteFree t (a + c.width) lone ∧
    t[lone]? = some c.quote ∧ t.occursAt lone c.delimiter = false ∧ c.ResumesAt t lone r

inductive Tile where
  | region (r : Region)
  | broken (start stop : Nat)
  | gap (start stop : Nat)
  deriving DecidableEq, Repr

def Tile.region? : Tile → Option Region
  | region r => some r
  | broken _ _ | gap _ _ => none

/-- The tiles from `p` on, each beginning where the one before ends, until one ends at `hi` or
later. -/
inductive Tiling (c : Conventions) (t : Text) : Nat → Nat → List Tile → Prop where
  | done {p hi : Nat} : hi ≤ p → Tiling c t p hi []
  | gap {p g hi : Nat} {rest : List Tile} :
      p < g → g ≤ hi → (∀ i, p ≤ i → i < g → ¬ c.TriggerAt t i) →
      Tiling c t g hi rest → Tiling c t p hi (.gap p g :: rest)
  | region {p e hi : Nat} {r : Region} {rest : List Tile} : p < hi → r.opening = p → r.stop = e →
      c.IsRegion t r → Tiling c t e hi rest → Tiling c t p hi (.region r :: rest)
  | broken {p e hi : Nat} {rest : List Tile} : p < hi → c.IsBroken t p e →
      Tiling c t e hi rest → Tiling c t p hi (.broken p e :: rest)

theorem occursAt_delimiter {p : Nat} (h : t.occursAt p c.delimiter = true) :
    t[p]? = some c.quote := by
  simp only [delimiter, Text.occursAt_cons, Bool.and_eq_true, beq_iff_eq] at h
  exact h.1

theorem add_width_le_size {p : Nat} (h : t.occursAt p c.delimiter = true) : p + c.width ≤ t.size :=
  Text.le_size_of_occursAt c.delimiter_ne_nil h

theorem commentEnd_eq_iff {p e : Nat} (hp : p ≤ t.size) :
    commentEnd t p = e ↔ p ≤ e ∧ e ≤ t.size ∧ OneLine t p e ∧ LineEndsAt t e := by
  have isEnd : ∀ i : Nat, (t[i]?.any isLineEnd) = false ↔
      ∀ ch, t[i]? = some ch → isLineEnd ch = false := by
    intro i
    cases t[i]? <;> simp
  have isEnd' : ∀ i : Nat, (t[i]?.any isLineEnd) = true ↔
      ∃ ch, t[i]? = some ch ∧ isLineEnd ch = true := by
    intro i
    cases t[i]? <;> simp
  unfold commentEnd
  constructor
  · intro h
    cases hf : Text.firstBetween (fun i => t[i]?.any isLineEnd) p t.size with
    | none =>
      rw [hf, Option.getD_none] at h
      subst h
      have hb := Text.firstBetween_eq_none hf
      exact ⟨hp, Nat.le_refl _, fun i hi hi' => (isEnd i).1 (hb i hi hi'), .inl rfl⟩
    | some i =>
      rw [hf, Option.getD_some] at h
      subst h
      obtain ⟨hpi, his, hend, hb⟩ := Text.firstBetween_eq_some hf
      exact ⟨hpi, by omega, fun j hj hj' => (isEnd j).1 (hb j hj hj'), .inr ((isEnd' i).1 hend)⟩
  · rintro ⟨hpe, hes, hline, rfl | hend⟩
    · rw [Text.firstBetween_eq_none_iff.2 fun j hj hj' => (isEnd j).2 (hline j hj hj')]
      rfl
    · have hlt : e < t.size := by
        obtain ⟨ch, hch, -⟩ := hend
        exact (Array.getElem?_eq_some_iff.1 hch).1
      rw [Text.firstBetween_eq_some_iff.2
        ⟨hpe, hlt, (isEnd' e).2 hend, fun j hj hj' => (isEnd j).2 (hline j hj hj')⟩]
      rfl

theorem afterBroken_eq_iff {lone r : Nat} : c.afterBroken t lone = r ↔ c.ResumesAt t lone r := by
  have beyond : ∀ {i}, t.occursAt i c.delimiter = true → i < t.size := fun {i} hi => by
    have hle := add_width_le_size hi
    have hpos := c.width_pos
    omega
  unfold afterBroken Text.find?
  cases hf : Text.firstBetween (t.occursAt · c.delimiter) (lone + 1) t.size with
  | none =>
    have hb := Text.firstBetween_eq_none hf
    have hno : ∀ i, lone < i → t.occursAt i c.delimiter = false := fun i hi => by
      cases ho : t.occursAt i c.delimiter with
      | false => rfl
      | true => rw [hb i hi (beyond ho)] at ho; exact ho.symm
    constructor
    · exact fun h => .inr ⟨hno, h.symm⟩
    · rintro (⟨k, hk, ho, -⟩ | ⟨-, rfl⟩)
      · simp [hno k hk] at ho
      · rfl
  | some k =>
    obtain ⟨hk, hks, ho, hb⟩ := Text.firstBetween_eq_some hf
    constructor
    · exact fun h => .inl ⟨k, hk, ho, fun i hi hi' => hb i hi hi', h.symm⟩
    · rintro (⟨k', hk', ho', hb', rfl⟩ | ⟨hno, -⟩)
      · rw [Text.firstBetween_eq_some_iff.2 ⟨hk', beyond ho', ho', fun i hi hi' => hb' i hi hi'⟩]
          at hf
        rw [Option.some.inj hf]
      · simp [hno k hk] at ho

theorem findChar?_eq_none_iff {p : Nat} :
    t.findChar? c.quote p = none ↔ c.QuoteFree t p t.size := by
  unfold Text.findChar?
  rw [Text.firstBetween_eq_none_iff]
  simp [QuoteFree]

theorem findChar?_eq_some_iff {p q : Nat} :
    t.findChar? c.quote p = some q ↔ p ≤ q ∧ t[q]? = some c.quote ∧ c.QuoteFree t p q := by
  unfold Text.findChar?
  rw [Text.firstBetween_eq_some_iff]
  simp only [beq_iff_eq, beq_eq_false_iff_ne, QuoteFree]
  constructor
  · exact fun ⟨hp, _, hq, hb⟩ => ⟨hp, hq, hb⟩
  · exact fun ⟨hp, hq, hb⟩ => ⟨hp, (Array.getElem?_eq_some_iff.1 hq).1, hq, hb⟩

theorem stop_comment (p e : Int) : (⟨.comment, p, e, true⟩ : Region).stop = e := rfl

theorem stop_unclosed (p e : Int) : (⟨.string, p, e, false⟩ : Region).stop = e := rfl

theorem stop_closed (c : Conventions) (p : Int) (q : Nat) :
    (⟨.string, p, (q + c.width - 1 : Nat), true⟩ : Region).stop = (q + c.width : Nat) := by
  have hpos := c.width_pos
  have hstop : (⟨.string, p, (q + c.width - 1 : Nat), true⟩ : Region).stop =
      (q + c.width - 1 : Nat) + 1 := rfl
  omega

theorem lt_commentEnd (hc : c.Advances) {p : Nat} (h : t.occursAt p c.comment = true) :
    p < commentEnd t p := by
  have hsize := Text.le_size_of_occursAt hc.comment_ne_nil h
  obtain ⟨hpe, -, -, hend⟩ :=
    (commentEnd_eq_iff (by omega)).1 (rfl : commentEnd t p = commentEnd t p)
  obtain ⟨ch, rest, hcr⟩ := List.exists_cons_of_ne_nil hc.comment_ne_nil
  have hhead : isLineEnd ch = false := hc.head ch (by rw [hcr]; rfl)
  have hch : t[p]? = some ch := by
    rw [hcr, Text.occursAt_cons, Bool.and_eq_true, beq_iff_eq] at h
    exact h.1
  -- a comment that ended where it opens would begin with a line end
  rcases Nat.lt_or_eq_of_le hpe with hlt | heq
  · exact hlt
  · rw [← heq] at hend
    rcases hend with rfl | ⟨ch', hch', hend⟩
    · simp at hch
    · rw [hch, Option.some.injEq] at hch'
      rw [hch', hend] at hhead
      simp at hhead

theorem openString_eq_iff {p next : Nat} {x : Opening} (hs : c.StringAt t p) :
    c.openString t p = (x, next) ↔
      (∃ r, x = .region r ∧ r.kind = .string ∧ r.opening = p ∧ r.stop = next ∧ c.IsRegion t r) ∨
        (x = .broken p next ∧ c.IsBroken t p next) := by
  unfold openString
  constructor
  · intro h
    split at h
    · rename_i hq
      obtain ⟨hx, hnext⟩ := Prod.mk.inj h
      rw [← hnext]
      exact .inl ⟨_, hx.symm, rfl, rfl, rfl, .unclosed hs (findChar?_eq_none_iff.1 hq)⟩
    · rename_i q hq
      obtain ⟨hpq, hqc, hfree⟩ := findChar?_eq_some_iff.1 hq
      split at h
      · rename_i hclose
        obtain ⟨hx, hnext⟩ := Prod.mk.inj h
        rw [← hnext]
        exact .inl ⟨_, hx.symm, rfl, rfl, stop_closed c p q, .closed hs hpq hfree hclose⟩
      · rename_i hlone
        obtain ⟨hx, hnext⟩ := Prod.mk.inj h
        rw [hnext] at hx
        exact .inr ⟨hx.symm, hs, q, hpq, hfree, hqc, by simpa using hlone,
          afterBroken_eq_iff.1 hnext⟩
  · rintro (⟨r, rfl, hkind, hopen, hstop, hr⟩ | ⟨rfl, -, lone, hpl, hfree, hq, hlone, hres⟩)
    · cases hr with
      | comment => simp at hkind
      | @closed a q _ hpq hfree hclose =>
        obtain rfl : a = p := Int.ofNat.inj hopen
        obtain rfl : q + c.width = next := Int.ofNat.inj ((stop_closed c a q).symm.trans hstop)
        have hfind := findChar?_eq_some_iff.2 ⟨hpq, occursAt_delimiter hclose, hfree⟩
        simp [hfind, hclose]
      | @unclosed a _ hfree =>
        obtain rfl : a = p := Int.ofNat.inj hopen
        obtain rfl : t.size = next := Int.ofNat.inj hstop
        simp [findChar?_eq_none_iff.2 hfree]
    · have hfind := findChar?_eq_some_iff.2 ⟨hpl, hq, hfree⟩
      simp [hfind, hlone, afterBroken_eq_iff.2 hres]

theorem openAt_of_stringAt {p : Nat} (hs : c.StringAt t p) :
    c.openAt t p = some (c.openString t p) := by
  rw [openAt, if_neg (by simp [hs.2]), if_pos hs.1]

theorem openAt_eq_some_iff (hc : c.Advances) {p next : Nat} {x : Opening} :
    c.openAt t p = some (x, next) ↔
      (∃ r, x = .region r ∧ r.opening = p ∧ r.stop = next ∧ c.IsRegion t r) ∨
        (x = .broken p next ∧ c.IsBroken t p next) := by
  constructor
  · intro h
    unfold openAt at h
    split at h
    · rename_i hcom
      obtain ⟨hx, hnext⟩ := Prod.mk.inj (Option.some.inj h)
      have hlt := lt_commentEnd hc hcom
      have hsize := Text.le_size_of_occursAt hc.comment_ne_nil hcom
      obtain ⟨-, hes, hline, hend⟩ := (commentEnd_eq_iff (by omega)).1 hnext
      rw [hnext] at hx hlt
      exact .inl ⟨_, hx.symm, rfl, rfl, .comment hcom hlt hes hline hend⟩
    · rename_i hcom
      split at h
      · rename_i hdel
        have hs : c.StringAt t p := ⟨hdel, by simpa using hcom⟩
        rcases (openString_eq_iff hs).1 (Option.some.inj h) with ⟨r, hx, -, hr⟩ | hb
        · exact .inl ⟨r, hx, hr⟩
        · exact .inr hb
      · simp at h
  · rintro (⟨r, rfl, hopen, hstop, hr⟩ | ⟨rfl, hb⟩)
    · have hregion := hr
      cases hr with
      | @comment a e hcom hlt hes hline hend =>
        obtain rfl : a = p := Int.ofNat.inj hopen
        obtain rfl : e = next := Int.ofNat.inj hstop
        rw [openAt, if_pos hcom,
          (commentEnd_eq_iff (by omega)).2 ⟨Nat.le_of_lt hlt, hes, hline, hend⟩]
      | @closed a q hs =>
        obtain rfl : a = p := Int.ofNat.inj hopen
        rw [openAt_of_stringAt hs,
          (openString_eq_iff hs).2 (.inl ⟨_, rfl, rfl, rfl, hstop, hregion⟩)]
      | @unclosed a hs =>
        obtain rfl : a = p := Int.ofNat.inj hopen
        rw [openAt_of_stringAt hs,
          (openString_eq_iff hs).2 (.inl ⟨_, rfl, rfl, rfl, hstop, hregion⟩)]
    · rw [openAt_of_stringAt hb.1, (openString_eq_iff hb.1).2 (.inr ⟨rfl, hb⟩)]

theorem openAt_eq_none_iff {p : Nat} : c.openAt t p = none ↔ ¬ c.TriggerAt t p := by
  unfold openAt TriggerAt
  split
  · simp_all
  · split <;> simp_all

theorem IsRegion.bounds {r : Region} (h : c.IsRegion t r) :
    ∃ p e : Nat, r.opening = p ∧ r.stop = e ∧ p < e ∧ e ≤ t.size := by
  have hpos := c.width_pos
  cases h with
  | @comment p e _ hlt hes _ _ => exact ⟨p, e, rfl, rfl, hlt, hes⟩
  | @closed p q hs hpq _ hclose =>
    exact ⟨p, q + c.width, rfl, stop_closed c p q, by omega, add_width_le_size hclose⟩
  | @unclosed p hs _ =>
    have hsize := add_width_le_size hs.1
    exact ⟨p, t.size, rfl, rfl, by omega, Nat.le_refl _⟩

theorem IsBroken.lt {a r : Nat} (h : c.IsBroken t a r) : a < r := by
  have hpos := c.width_pos
  obtain ⟨-, lone, hal, -, -, -, hres⟩ := h
  rcases hres with ⟨k, hk, -, -, rfl⟩ | ⟨-, rfl⟩ <;> omega

end Conventions

namespace Opening

def first : Opening → Nat
  | region r => r.opening.toNat
  | broken start _ => start

def last : Opening → Nat
  | region r => r.stop.toNat
  | broken _ stop => stop

theorem region?_eq_some {x : Opening} {r : Region} : x.region? = some r ↔ x = .region r := by
  cases x <;> simp [region?]

end Opening

namespace Conventions

variable {c : Conventions} {t : Text}

theorem places_openAt (hc : c.Advances) (t : Text) :
    Text.Places (c.openAt t) Opening.first Opening.last where
  first_eq {p next x} h := by
    rcases (openAt_eq_some_iff hc).1 h with ⟨r, rfl, hp, -, -⟩ | ⟨rfl, -⟩
    · simp [Opening.first, hp]
    · rfl
  last_eq {p next x} h := by
    rcases (openAt_eq_some_iff hc).1 h with ⟨r, rfl, -, he, -⟩ | ⟨rfl, -⟩
    · simp [Opening.last, he]
    · rfl
  lt {p next x} h := by
    rcases (openAt_eq_some_iff hc).1 h with ⟨r, -, hp, he, hr⟩ | ⟨-, hb⟩
    · obtain ⟨p', e', hp', he', hlt, -⟩ := hr.bounds
      omega
    · exact hb.lt

theorem mem_openings (hc : c.Advances) {a b : Nat} {x : Opening} (hx : x ∈ c.openings t a b) :
    a ≤ x.first ∧ x.first < b ∧ x.first < x.last ∧ c.openAt t x.first = some (x, x.last) := by
  obtain ⟨hl, hu, hs⟩ := (places_openAt hc t).mem_sweep hx
  exact ⟨hl, hu, (places_openAt hc t).lt hs, hs⟩

theorem mem_regions {a b : Nat} {r : Region} :
    r ∈ c.regions t a b ↔ .region r ∈ c.openings t a b := by
  simp [regions, Opening.region?_eq_some]

theorem regions_of_le (c : Conventions) (t : Text) {a b : Nat} (h : b ≤ a) :
    c.regions t a b = [] := by
  rw [regions, openings, Text.sweep_of_le h]
  rfl

theorem isRegion_of_mem (hc : c.Advances) {a b : Nat} {r : Region} (hr : r ∈ c.regions t a b) :
    c.IsRegion t r := by
  obtain ⟨-, -, -, hs⟩ := mem_openings hc (mem_regions.1 hr)
  rcases (openAt_eq_some_iff hc).1 hs with ⟨r', hx, -, -, hr'⟩ | ⟨hx, -⟩
  · rw [Opening.region.inj hx]
    exact hr'
  · exact absurd hx (by simp)

theorem bounds_of_mem (hc : c.Advances) {a b : Nat} {r : Region} (hr : r ∈ c.regions t a b) :
    (a : Int) ≤ r.opening ∧ r.opening < b ∧ r.opening < r.stop ∧ r.stop ≤ t.size := by
  obtain ⟨hl, hu, -, -⟩ := mem_openings hc (mem_regions.1 hr)
  obtain ⟨p, e, hp, he, hlt, hes⟩ := (isRegion_of_mem hc hr).bounds
  simp only [Opening.first] at hl hu
  omega

theorem pairwise_regions (hc : c.Advances) (t : Text) (a b : Nat) :
    (c.regions t a b).Pairwise fun r r' => r.stop ≤ r'.opening := by
  refine List.pairwise_filterMap.2 (((places_openAt hc t).pairwise_sweep a b).imp_of_mem ?_)
  intro x y hx hy hxy r hr r' hr'
  obtain rfl := Opening.region?_eq_some.1 hr
  obtain rfl := Opening.region?_eq_some.1 hr'
  have hb := bounds_of_mem hc (mem_regions.2 hx)
  have hb' := bounds_of_mem hc (mem_regions.2 hy)
  simp only [Opening.first, Opening.last] at hxy
  omega

theorem getLast?_of_isOpenString (hc : c.Advances) {a b : Nat} {r : Region}
    (hr : r ∈ c.regions t a b)
    (ho : r.isOpenString = true) : (c.regions t a b).getLast? = some r := by
  have hstop : r.stop = t.size := by
    cases isRegion_of_mem hc hr with
    | comment => simp [Region.isOpenString] at ho
    | closed => simp [Region.isOpenString] at ho
    | unclosed => rfl
  obtain ⟨before, after, hsplit⟩ := List.mem_iff_append.1 hr
  have hpair := pairwise_regions hc t a b
  rw [hsplit] at hpair
  cases after with
  | nil => simp [hsplit]
  | cons r' rest =>
    have hle := (List.pairwise_cons.1 (List.pairwise_append.1 hpair).2.1).1 r'
      (List.mem_cons_self ..)
    have hr' : r' ∈ c.regions t a b := by simp [hsplit]
    have hb := bounds_of_mem hc hr'
    omega

theorem exists_tiling (hc : c.Advances) (t : Text) (a b : Nat) :
    ∃ tiles, c.Tiling t a b tiles ∧ tiles.filterMap Tile.region? = c.regions t a b := by
  unfold regions openings
  fun_induction Text.sweep (c.openAt t) a b with
  | case1 p hp hn ih =>
    obtain ⟨tiles, ht, hr⟩ := ih
    refine ⟨.gap p (p + 1) :: tiles, .gap (by omega) (by omega) (fun i hi hi' => ?_) ht, hr⟩
    rw [show i = p by omega]
    exact openAt_eq_none_iff.1 hn
  | case2 p hp found next hs ih =>
    have hlt := (places_openAt hc t).lt hs
    rw [Nat.max_eq_left (by omega)] at ih ⊢
    obtain ⟨tiles, ht, hr⟩ := ih
    rcases (openAt_eq_some_iff hc).1 hs with ⟨r, rfl, hopen, hstop, hreg⟩ | ⟨rfl, hb⟩
    · refine ⟨.region r :: tiles, .region hp hopen hstop hreg ht, ?_⟩
      rw [List.filterMap_cons, List.filterMap_cons, hr]
      rfl
    · refine ⟨.broken p next :: tiles, .broken hp hb ht, ?_⟩
      rw [List.filterMap_cons, List.filterMap_cons, hr]
      rfl
  | case3 p hp => exact ⟨[], .done (by omega), rfl⟩

theorem regions_eq_of_tiling (hc : c.Advances) {a b : Nat} {tiles : List Tile}
    (h : c.Tiling t a b tiles) :
    tiles.filterMap Tile.region? = c.regions t a b := by
  unfold regions openings
  induction h with
  | done hle => rw [Text.sweep_of_le hle]; rfl
  | gap hpg hg hfree _ ih =>
    rw [Text.sweep_of_none_between (Nat.le_of_lt hpg) hg fun i hi hi' =>
      openAt_eq_none_iff.2 (hfree i hi hi')]
    exact ih
  | region hp hopen hstop hreg _ ih =>
    have hs := (openAt_eq_some_iff hc).2 (.inl ⟨_, rfl, hopen, hstop, hreg⟩)
    rw [(places_openAt hc t).sweep_of_some hp hs, List.filterMap_cons, List.filterMap_cons, ih]
    rfl
  | broken hp hb _ ih =>
    have hs := (openAt_eq_some_iff hc).2 (.inr ⟨rfl, hb⟩)
    rw [(places_openAt hc t).sweep_of_some hp hs, List.filterMap_cons, List.filterMap_cons, ih]
    rfl

/-- The regions of a range as the grammar has them: in order and apart, each opening in the range,
an unclosed string only at the end, and no others in any row of tiles. -/
structure Scanned (c : Conventions) (t : Text) (lo hi : Int) (rs : List Region) : Prop where
  ordered : rs.Pairwise fun r r' => r.stop ≤ r'.opening
  inside : ∀ r ∈ rs, lo ≤ r.opening ∧ r.opening < hi ∧ r.opening < r.stop ∧ r.stop ≤ t.size
  region : ∀ r ∈ rs, c.IsRegion t r
  last : ∀ r ∈ rs, r.isOpenString = true → rs.getLast? = some r
  tiled : ∃ tiles, c.Tiling t lo.toNat hi.toNat tiles ∧ tiles.filterMap Tile.region? = rs
  only : ∀ tiles, c.Tiling t lo.toNat hi.toNat tiles → tiles.filterMap Tile.region? = rs

theorem scan_eq_regions (t : Text) (start : Int) (stop : Option Int) :
    c.scan t start stop = c.regions t (max 0 start).toNat (t.rangeEnd stop).toNat := by
  unfold scan Text.rangeEnd
  cases stop with
  | none => rw [show (max 0 start).toNat = start.toNat by omega]; rfl
  | some b =>
    rw [show (max 0 start).toNat = start.toNat by omega,
      show (min b (t.size : Int)).toNat = min b.toNat t.size by omega]

theorem scanned_scan (hc : c.Advances) (t : Text) (start : Int) (stop : Option Int) :
    c.Scanned t (max 0 start) (t.rangeEnd stop) (c.scan t start stop) := by
  rw [scan_eq_regions]
  refine ⟨pairwise_regions hc t _ _, fun r hr => ?_, fun r hr => isRegion_of_mem hc hr,
    fun r hr ho => getLast?_of_isOpenString hc hr ho, exists_tiling hc t _ _,
    fun tiles ht => regions_eq_of_tiling hc ht⟩
  obtain ⟨hl, hu, hlt, hs⟩ := bounds_of_mem hc hr
  omega

theorem scanned_scan_orson :
    Advances ⟨['!'], '\'', ['\'']⟩ ∧
      Scanned ⟨['!'], '\'', ['\'']⟩ (Text.ofString "''a' b''''c''!d\n''e") 0 19
        [⟨.string, 8, 12, true⟩, ⟨.comment, 13, 15, true⟩, ⟨.string, 16, 19, false⟩] := by
  have hc : Advances ⟨['!'], '\'', ['\'']⟩ := ⟨by decide, fun ch hch => Option.some.inj hch ▸ rfl⟩
  have hscan : scan ⟨['!'], '\'', ['\'']⟩ (Text.ofString "''a' b''''c''!d\n''e") 0 none =
      [⟨.string, 8, 12, true⟩, ⟨.comment, 13, 15, true⟩, ⟨.string, 16, 19, false⟩] := by
      decide +kernel
  have hend : (Text.ofString "''a' b''''c''!d\n''e").rangeEnd none = 19 := by decide +kernel
  have h := scanned_scan hc (Text.ofString "''a' b''''c''!d\n''e") 0 none
  rw [hscan, hend] at h
  exact ⟨hc, h⟩

end Conventions

end OrsonHighlight
