import OrsonHighlight.Proofs.RegionGrammar
import OrsonHighlight.Proofs.Runs

set_option autoImplicit false

namespace OrsonHighlight

/-- Both ends of a string, or only the first where it is not terminated. -/
def Region.HasFence (r : Region) (e : Int × Fence) : Prop :=
  r.kind = .string ∧ (e = (r.opening, .opening) ∨ r.terminated = true ∧ e = (r.closing, .closing))

namespace Fences

def Ascending (fs : Fences) : Prop := fs.Pairwise fun e e' => e.1 < e'.1

theorem mem_put {fs : Fences} (h : fs.Ascending) {o : Int} {f : Fence} {e : Int × Fence} :
    e ∈ put o f fs ↔ e = (o, f) ∨ e ∈ fs ∧ e.1 ≠ o := by
  induction fs with
  | nil => simp [put]
  | cons x rest ih =>
    obtain ⟨o', f'⟩ := x
    obtain ⟨hx, h⟩ := List.pairwise_cons.1 h
    have later : ∀ e ∈ rest, o' < e.1 := fun e he => hx e he
    rw [put]
    split
    · rename_i hlt
      have hne : ∀ e ∈ (o', f') :: rest, e.1 ≠ o := fun e he => by
        rcases List.mem_cons.1 he with rfl | he
        · exact fun heq => by dsimp only at heq; omega
        · have hlow := later e he
          omega
      rw [List.mem_cons]
      exact or_congr Iff.rfl ⟨fun he => ⟨he, hne e he⟩, fun he => he.1⟩
    · split
      · rename_i heq
        subst heq
        have hne : ∀ e ∈ rest, e.1 ≠ o := fun e he => by
          have hlow := later e he
          omega
        rw [List.mem_cons, List.mem_cons]
        constructor
        · rintro (he | he)
          · exact .inl he
          · exact .inr ⟨.inr he, hne e he⟩
        · rintro (he | ⟨rfl | he, hno⟩)
          · exact .inl he
          · exact absurd rfl hno
          · exact .inr he
      · rename_i hlt hne
        rw [List.mem_cons, List.mem_cons, ih h]
        constructor
        · rintro (rfl | he | he)
          · exact .inr ⟨.inl rfl, Ne.symm hne⟩
          · exact .inl he
          · exact .inr ⟨.inr he.1, he.2⟩
        · rintro (he | ⟨rfl | he, hno⟩)
          · exact .inr (.inl he)
          · exact .inl rfl
          · exact .inr (.inr ⟨he, hno⟩)

theorem ascending_put {fs : Fences} (h : fs.Ascending) (o : Int) (f : Fence) :
    (put o f fs).Ascending := by
  induction fs with
  | nil => simp [put, Ascending]
  | cons x rest ih =>
    obtain ⟨o', f'⟩ := x
    obtain ⟨hx, hrest⟩ := List.pairwise_cons.1 h
    rw [put]
    split
    · rename_i hlt
      refine List.pairwise_cons.2 ⟨fun e he => ?_, h⟩
      rcases List.mem_cons.1 he with rfl | he
      · exact hlt
      · exact Int.lt_trans hlt (hx e he)
    · split
      · rename_i heq
        subst heq
        exact List.pairwise_cons.2 ⟨hx, hrest⟩
      · rename_i hlt hne
        refine List.pairwise_cons.2 ⟨fun e he => ?_, ih hrest⟩
        rcases (mem_put hrest).1 he with rfl | he
        · dsimp only
          omega
        · exact hx e he.1

theorem ascending_ofList (entries : List (Int × Fence)) : (ofList entries).Ascending := by
  unfold ofList
  have step :
      ∀ fs : Fences, fs.Ascending → Ascending (entries.foldl (fun fs e => put e.1 e.2 fs) fs) := by
    induction entries with
    | nil => exact fun fs h => h
    | cons e rest ih => exact fun fs h => ih _ (ascending_put h e.1 e.2)
  exact step [] List.Pairwise.nil

theorem mem_foldl_put {entries : List (Int × Fence)} {fs : Fences} (h : fs.Ascending)
    (hn : (entries.map (·.1)).Nodup) (hfs : ∀ x ∈ fs, x.1 ∉ entries.map (·.1)) {e : Int × Fence} :
    e ∈ entries.foldl (fun fs e => put e.1 e.2 fs) fs ↔ e ∈ entries ∨ e ∈ fs := by
  induction entries generalizing fs with
  | nil => simp
  | cons x rest ih =>
    obtain ⟨hx, hn⟩ := List.nodup_cons.1 hn
    have hrest : ∀ y ∈ put x.1 x.2 fs, y.1 ∉ rest.map (·.1) := fun y hy => by
      rcases (mem_put h).1 hy with rfl | ⟨hy, -⟩
      · exact hx
      · exact fun hmem => hfs y hy (List.mem_cons_of_mem _ hmem)
    have hother : e ∈ fs → e.1 ≠ x.1 := fun he heq => hfs e he (heq ▸ List.mem_cons_self ..)
    rw [List.foldl_cons, ih (ascending_put h x.1 x.2) hn hrest, mem_put h, List.mem_cons]
    constructor
    · rintro (he | rfl | ⟨he, -⟩)
      · exact .inl (.inr he)
      · exact .inl (.inl rfl)
      · exact .inr he
    · rintro ((rfl | he) | he)
      · exact .inr (.inl rfl)
      · exact .inl he
      · exact .inr (.inr ⟨he, hother he⟩)

theorem mem_ofList {entries : List (Int × Fence)} (hn : (entries.map (·.1)).Nodup)
    {e : Int × Fence} :
    e ∈ ofList entries ↔ e ∈ entries := by
  rw [ofList, mem_foldl_put List.Pairwise.nil hn (by simp)]
  simp

theorem mem_ofRegion {start stop : Int} {r : Region} {e : Int × Fence} :
    e ∈ ofRegion start stop r ↔ (start ≤ e.1 ∧ e.1 < stop) ∧ r.HasFence e := by
  unfold ofRegion Region.HasFence
  by_cases hk : r.kind = .string
  · rw [if_pos hk, List.mem_append]
    constructor
    · rintro (he | he)
      · split at he
        · rename_i hin
          rw [List.mem_singleton] at he
          subst he
          exact ⟨hin, hk, .inl rfl⟩
        · simp at he
      · split at he
        · rename_i hin
          rw [List.mem_singleton] at he
          subst he
          exact ⟨hin.2, hk, .inr ⟨hin.1, rfl⟩⟩
        · simp at he
    · rintro ⟨hin, -, rfl | ⟨hterm, rfl⟩⟩
      · exact .inl (by simp [hin])
      · exact .inr (by simp [hin, hterm])
  · simp [hk]

end Fences

namespace Conventions

variable {c : Conventions} {t : Text} {a b : Nat}

theorem IsRegion.fence_bounds {r : Region} (h : c.IsRegion t r) {e : Int × Fence}
    (he : r.HasFence e) :
    r.opening ≤ e.1 ∧ e.1 < r.stop ∧ (e.2 = .closing → r.opening < e.1) := by
  have hpos := c.width_pos
  obtain ⟨hk, he⟩ := he
  cases h with
  | comment => simp at hk
  | @closed p q _ hpq =>
    rw [stop_closed]
    rcases he with rfl | ⟨-, rfl⟩
    · dsimp only
      exact ⟨by omega, by omega, by simp⟩
    · dsimp only
      exact ⟨by omega, by omega, fun _ => by omega⟩
  | @unclosed p hs =>
    rw [stop_unclosed]
    have hle := add_width_le_size hs.1
    rcases he with rfl | ⟨hterm, -⟩
    · dsimp only
      exact ⟨by omega, by omega, by simp⟩
    · simp at hterm

theorem ascending_ofRegion (hc : c.Advances) {r : Region} (hr : r ∈ c.regions t a b)
    (start stop : Int) :
    Fences.Ascending (Fences.ofRegion start stop r) := by
  unfold Fences.ofRegion
  split
  · rename_i hk
    have hlt : r.terminated = true → r.opening < r.closing := fun hterm =>
      ((isRegion_of_mem hc hr).fence_bounds ⟨hk, .inr ⟨hterm, rfl⟩⟩).2.2 rfl
    split <;> split <;> simp [Fences.Ascending]
    rename_i hin
    exact hlt hin.1
  · exact List.Pairwise.nil

theorem ascending_fences (hc : c.Advances) (t : Text) (a b : Nat) (start stop : Int) :
    Fences.Ascending ((c.regions t a b).flatMap (Fences.ofRegion start stop)) := by
  refine List.pairwise_flatMap.2 ⟨fun r hr => ascending_ofRegion hc hr start stop, ?_⟩
  refine (pairwise_regions hc t a b).imp_of_mem fun {r r'} hr hr' hle e he e' he' => ?_
  have hb := (isRegion_of_mem hc hr).fence_bounds (Fences.mem_ofRegion.1 he).2
  have hb' := (isRegion_of_mem hc hr').fence_bounds (Fences.mem_ofRegion.1 he').2
  omega

theorem nodup_fences (hc : c.Advances) (t : Text) (a b : Nat) (start stop : Int) :
    (((c.regions t a b).flatMap (Fences.ofRegion start stop)).map (·.1)).Nodup :=
  List.pairwise_map.2 ((ascending_fences hc t a b start stop).imp Int.ne_of_lt)

theorem mem_fences (hc : c.Advances) {start stop : Int} {e : Int × Fence} :
    e ∈ Fences.ofRegions start stop (c.regions t a b) ↔
      (start ≤ e.1 ∧ e.1 < stop) ∧ ∃ r ∈ c.regions t a b, r.HasFence e := by
  rw [Fences.ofRegions, Fences.mem_ofList (nodup_fences hc t a b start stop)]
  simp only [List.mem_flatMap, Fences.mem_ofRegion]
  constructor
  · rintro ⟨r, hr, hin, he⟩
    exact ⟨hin, r, hr, he⟩
  · rintro ⟨hin, r, hr, he⟩
    exact ⟨r, hr, hin, he⟩

end Conventions

end OrsonHighlight
