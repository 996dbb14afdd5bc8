import OrsonHighlight.Proofs.Compositing
import OrsonHighlight.Proofs.Fences

set_option autoImplicit false

namespace OrsonHighlight

def Region.ClosesBefore (stop : Int) (r : Region) : Prop := r.terminated = true ∧ r.closing < stop

instance (stop : Int) (r : Region) : Decidable (r.ClosesBefore stop) :=
  inferInstanceAs (Decidable (_ ∧ _))

namespace Fences

/-- Openings and closings by turns, an opening first. -/
inductive Alternating : List Fence → Prop where
  | nil : Alternating []
  | unclosed : Alternating [.opening]
  | closed {fs : List Fence} : Alternating fs → Alternating (.opening :: .closing :: fs)

theorem at?_eq_some_iff {fs : Fences} (h : fs.Ascending) {o : Int} {f : Fence} :
    fs.at? o = some f ↔ (o, f) ∈ fs := by
  induction fs with
  | nil => simp [at?]
  | cons e rest ih =>
    obtain ⟨o', f'⟩ := e
    obtain ⟨hfirst, hrest⟩ := List.pairwise_cons.1 h
    by_cases ho : o' = o
    · subst ho
      have hno : (o', f) ∉ rest := fun hmem => absurd (hfirst _ hmem) (by simp)
      simp [at?, hno, eq_comm]
    · have hskip : at? ((o', f') :: rest) o = at? rest o := by simp [at?, ho]
      rw [hskip, ih hrest, List.mem_cons]
      simp [Ne.symm ho]

theorem ofList_of_ascending {entries : List (Int × Fence)} (h : Ascending entries) :
    ofList entries = entries :=
  eq_of_mem_iff_of_ascending (ascending_ofList entries) h fun _ =>
    mem_ofList (List.pairwise_map.2 (h.imp Int.ne_of_lt))

end Fences

namespace Conventions

variable {c : Conventions} {t : Text} {a b : Nat}

theorem ofRegions_eq_flatMap (hc : c.Advances) (t : Text) (a b : Nat) (start stop : Int) :
    Fences.ofRegions start stop (c.regions t a b) =
      (c.regions t a b).flatMap (Fences.ofRegion start stop) :=
  Fences.ofList_of_ascending (ascending_fences hc t a b start stop)

theorem ofRegion_of_mem (hc : c.Advances) {r : Region} (hr : r ∈ c.regions t a b)
    (hk : r.kind = .string) :
    Fences.ofRegion a b r =
      (r.opening, .opening) :: (if r.ClosesBefore b then [(r.closing, .closing)] else []) := by
  obtain ⟨hl, hu, -, -⟩ := bounds_of_mem hc hr
  have hclosing : r.terminated = true → (a : Int) ≤ r.closing := fun hterm => by
    have hpast := ((isRegion_of_mem hc hr).fence_bounds ⟨hk, .inr ⟨hterm, rfl⟩⟩).1
    dsimp only at hpast
    omega
  have hin : (r.terminated = true ∧ (a : Int) ≤ r.closing ∧ r.closing < b) ↔ r.ClosesBefore b :=
    ⟨fun h => ⟨h.1, h.2.2⟩, fun h => ⟨h.1, hclosing h.1, h.2⟩⟩
  simp only [Fences.ofRegion, hk, if_true, hl, hu, and_self, hin]
  rfl

/-- A string that does not end inside the range goes on to the end of it, and nothing opens after
it. -/
theorem eq_nil_of_not_closesBefore (hc : c.Advances) (hb : b ≤ t.size)
    {before after : List Region} {r : Region}
    (hsplit : c.regions t a b = before ++ r :: after) (hk : r.kind = .string)
    (hno : ¬ r.ClosesBefore b) :
    after = [] := by
  have hmem : r ∈ c.regions t a b := by simp [hsplit]
  have hstop : (b : Int) ≤ r.stop := by
    cases isRegion_of_mem hc hmem with
    | comment => simp at hk
    | @closed p q =>
      have hlate : ¬ ((q + c.width - 1 : Nat) : Int) < b := fun hlt => hno ⟨rfl, hlt⟩
      rw [stop_closed]
      omega
    | unclosed => exact Int.ofNat_le.2 hb
  refine List.eq_nil_iff_forall_not_mem.2 fun r' hr' => ?_
  have hpair := pairwise_regions hc t a b
  rw [hsplit] at hpair
  have hle := (List.pairwise_cons.1 (List.pairwise_append.1 hpair).2.1).1 r' hr'
  have hopen := (bounds_of_mem hc (r := r') (a := a) (b := b) (by rw [hsplit]; simp [hr'])).2.1
  omega

theorem opening_ne_closing (hc : c.Advances) {g g' : Region} (hg : g ∈ c.regions t a b)
    (hg' : g' ∈ c.regions t a b) (hk : g.kind = .string) (hterm : g'.isTerminatedString = true) :
    g.opening ≠ g'.closing := by
  intro heq
  simp only [Region.isTerminatedString, Bool.and_eq_true, beq_iff_eq] at hterm
  have hopen := (isRegion_of_mem hc hg).fence_bounds ⟨hk, .inl rfl⟩
  have hclose := (isRegion_of_mem hc hg').fence_bounds ⟨hterm.1, .inr ⟨hterm.2, rfl⟩⟩
  dsimp only at hopen hclose
  -- one offset lies in one region only, and there the closing fence is past the opening one
  have hsame : g = g' :=
    eq_of_covers_of_pairwise (pairwise_regions hc t a b) hg hg' ⟨hopen.1, hopen.2.1⟩
    ⟨heq ▸ hclose.1, heq ▸ hclose.2.1⟩
  have hpast := hclose.2.2 rfl
  rw [hsame] at heq
  omega

theorem alternating_flatMap (hc : c.Advances) (hb : b ≤ t.size) (before after : List Region)
    (hsplit : c.regions t a b = before ++ after) :
    Fences.Alternating ((after.flatMap (Fences.ofRegion a b)).map (·.2)) := by
  induction after generalizing before with
  | nil => exact .nil
  | cons r rest ih =>
    have ih := ih (before ++ [r]) (by simp [hsplit])
    rw [List.flatMap_cons]
    by_cases hk : r.kind = .string
    · have hr : r ∈ c.regions t a b := by simp [hsplit]
      rw [ofRegion_of_mem hc hr hk]
      by_cases hclosed : r.ClosesBefore b
      · rw [if_pos hclosed]
        exact .closed ih
      · rw [if_neg hclosed, eq_nil_of_not_closesBefore hc hb hsplit hk hclosed]
        exact .unclosed
    · have hnone : Fences.ofRegion a b r = [] := by simp [Fences.ofRegion, hk]
      rw [hnone]
      exact ih

theorem exists_split_fences (hc : c.Advances) (hb : b ≤ t.size) {r : Region}
    (hr : r ∈ c.regions t a b) (hk : r.kind = .string) :
    ∃ before after, (c.regions t a b).flatMap (Fences.ofRegion a b) =
      before ++ (r.opening, .opening) :: after ∧
      if r.ClosesBefore b then after.head? = some (r.closing, .closing) else after = [] := by
  obtain ⟨before, after, hsplit⟩ := List.mem_iff_append.1 hr
  have hhead := ofRegion_of_mem hc hr hk
  by_cases hclosed : r.ClosesBefore b
  · rw [if_pos hclosed] at hhead
    refine ⟨before.flatMap (Fences.ofRegion a b),
      (r.closing, .closing) :: after.flatMap (Fences.ofRegion a b), ?_, by rw [if_pos hclosed]; rfl⟩
    rw [hsplit, List.flatMap_append, List.flatMap_cons, hhead]
    rfl
  · rw [if_neg hclosed] at hhead
    refine ⟨before.flatMap (Fences.ofRegion a b), [], ?_, by rw [if_neg hclosed]⟩
    rw [hsplit, List.flatMap_append, List.flatMap_cons, hhead,
      eq_nil_of_not_closesBefore hc hb hsplit hk hclosed]
    rfl

end Conventions

namespace Classification

/-- The fences are the ends of strings, and each string that ends inside the range has its closing
right after its opening. -/
structure Fenced (r : Classification) : Prop where
  opening : ∀ o, r.fenceAt o = some .opening ↔ ∃ g ∈ r.regions, g.kind = .string ∧ g.opening = o
  closing : ∀ o, r.fenceAt o = some .closing ↔
    ∃ g ∈ r.regions, g.isTerminatedString = true ∧ g.closing = o ∧ o < r.stop
  apart : ∀ g ∈ r.regions, ∀ g' ∈ r.regions, g.kind = .string → g'.isTerminatedString = true →
    g.opening ≠ g'.closing
  inside : ∀ e ∈ r.fences, (r.start ≤ e.1 ∧ e.1 < r.stop) ∧ r.classAt e.1 = some .string
  ascending : r.fences.Ascending
  alternating : Fences.Alternating (r.fences.map (·.2))
  paired : ∀ g ∈ r.regions, g.kind = .string → ∃ before after,
    r.fences = before ++ (g.opening, .opening) :: after ∧
      if g.ClosesBefore r.stop then after.head? = some (g.closing, .closing) else after = []

variable {tables : List CompiledTable} {c : Conventions} {t : Text} {a b : Nat}

theorem mem_fences_ofRange (hc : c.Advances) {x : Int × Fence} :
    x ∈ (ofRange tables c t a b).fences ↔ ((a : Int) ≤ x.1 ∧ x.1 < b) ∧
      ∃ r ∈ c.regions t a b, r.HasFence x :=
  Conventions.mem_fences hc

theorem ascending_fences_ofRange (tables : List CompiledTable) (c : Conventions)
    (t : Text) (a b : Nat) :
    (ofRange tables c t a b).fences.Ascending := Fences.ascending_ofList _

theorem fences_ofRange (hc : c.Advances) :
    (ofRange tables c t a b).fences = (c.regions t a b).flatMap (Fences.ofRegion a b) :=
  Conventions.ofRegions_eq_flatMap hc t a b a b

theorem fenceAt_ofRange_opening (hc : c.Advances) {o : Int} :
    (ofRange tables c t a b).fenceAt o = some .opening ↔
      ∃ g ∈ c.regions t a b, g.kind = .string ∧ g.opening = o := by
  rw [fenceAt, Fences.at?_eq_some_iff (ascending_fences_ofRange tables c t a b),
    mem_fences_ofRange hc]
  constructor
  · rintro ⟨-, g, hg, hk, heq | ⟨-, heq⟩⟩
    · exact ⟨g, hg, hk, (congrArg Prod.fst heq).symm⟩
    · simp at heq
  · rintro ⟨g, hg, hk, rfl⟩
    have hin := Conventions.bounds_of_mem hc hg
    exact ⟨⟨hin.1, hin.2.1⟩, g, hg, hk, .inl rfl⟩

theorem fenceAt_ofRange_closing (hc : c.Advances) {o : Int} :
    (ofRange tables c t a b).fenceAt o = some .closing ↔
      ∃ g ∈ c.regions t a b, g.isTerminatedString = true ∧ g.closing = o ∧ o < b := by
  rw [fenceAt, Fences.at?_eq_some_iff (ascending_fences_ofRange tables c t a b),
    mem_fences_ofRange hc]
  constructor
  · rintro ⟨hin, g, hg, hk, heq | ⟨hterm, heq⟩⟩
    · simp at heq
    · exact ⟨g, hg, by simp [Region.isTerminatedString, hk, hterm],
        (congrArg Prod.fst heq).symm, hin.2⟩
  · rintro ⟨g, hg, hterm, rfl, hlt⟩
    simp only [Region.isTerminatedString, Bool.and_eq_true, beq_iff_eq] at hterm
    have hfence : g.HasFence (g.closing, .closing) := ⟨hterm.1, .inr ⟨hterm.2, rfl⟩⟩
    have hpast := ((Conventions.isRegion_of_mem hc hg).fence_bounds hfence).1
    have hin := (Conventions.bounds_of_mem hc hg).1
    exact ⟨⟨Int.le_trans hin hpast, hlt⟩, g, hg, hfence⟩

theorem classAt_ofRange_of_mem_fences (hc : c.Advances) (ht : DistinctClasses tables)
    {x : Int × Fence}
    (hx : x ∈ (ofRange tables c t a b).fences) :
    (ofRange tables c t a b).classAt x.1 = some .string := by
  obtain ⟨hin, g, hg, hfence⟩ := (mem_fences_ofRange hc).1 hx
  have hb := (Conventions.isRegion_of_mem hc hg).fence_bounds hfence
  rw [classAt_ofRange hc ht, showing_of_region hc hg hin (span_covers_iff.2 ⟨hb.1, hb.2.1⟩),
    Option.map_some, hfence.1]
  rfl

theorem fenced_ofRange (hc : c.Advances) (ht : DistinctClasses tables) (hb : b ≤ t.size) :
    (ofRange tables c t a b).Fenced where
  opening _ := fenceAt_ofRange_opening hc
  closing _ := fenceAt_ofRange_closing hc
  apart _ hg _ hg' hk hterm := Conventions.opening_ne_closing hc hg hg' hk hterm
  inside _ hx := ⟨((mem_fences_ofRange hc).1 hx).1, classAt_ofRange_of_mem_fences hc ht hx⟩
  ascending := ascending_fences_ofRange tables c t a b
  alternating := by
    rw [fences_ofRange hc]
    exact Conventions.alternating_flatMap hc hb [] _ rfl
  paired _ hg hk := by
    rw [fences_ofRange hc]
    exact Conventions.exists_split_fences hc hb hg hk

end Classification

namespace Mode

theorem classify_fenced {m : Mode} (hm : m.Scannable) (t : Text) (start : Int) (stop : Option Int) :
    ∃ r, m.classify t start stop = some r ∧ r.Fenced := by
  obtain ⟨c, hr⟩ := hm.exists_reads
  exact ⟨_, hr.classify_eq t start stop,
    Classification.fenced_ofRange hr.advances m.distinctClasses_compiled (Text.clamp_snd_le _ _ _)⟩

theorem classify_fenced_adjacent :
    ({ Mode.orson with stringDelimiter := "'" } : Mode).Scannable ∧
      ∃ r, ({ Mode.orson with stringDelimiter := "'" } : Mode).classify
        (Text.ofString "'''a' if") 0 (some 4) =
          some r ∧ r.Fenced ∧ r.fences = [(0, .opening), (1, .closing), (2, .opening)] ∧
        r.regions = [⟨.string, 0, 1, true⟩, ⟨.string, 2, 4, true⟩] := by
  have hscan : ({ Mode.orson with stringDelimiter := "'" } : Mode).Scannable :=
    ⟨by decide, scannable_orson.comment_ne, scannable_orson.head⟩
  obtain ⟨r, hr, hfenced⟩ := classify_fenced hscan (Text.ofString "'''a' if") 0 (some 4)
  have hvalue : ({ Mode.orson with stringDelimiter := "'" } : Mode).classify
      (Text.ofString "'''a' if") 0 (some 4) =
        some ⟨0, 4, [⟨0, 2, .string⟩, ⟨2, 4, .string⟩],
          [⟨.string, 0, 1, true⟩, ⟨.string, 2, 4, true⟩],
          [(0, .opening), (1, .closing), (2, .opening)]⟩ := by decide +kernel
  obtain rfl := Option.some.inj (hr.symm.trans hvalue)
  exact ⟨hscan, _, hr, hfenced, rfl, rfl⟩

end Mode

end OrsonHighlight
