import OrsonHighlight.Proofs.Matches
import OrsonHighlight.Proofs.RegionGrammar

/-!
The scan for regions round by round. Each round goes to the next trigger and reads what opens there,
and the next one begins where that ends. A comment trigger that is empty or begins with a line end
leaves the scan where it is; with any other every round moves on, and the scan comes to an end in
every text.
-/

set_option autoImplicit false

namespace OrsonHighlight.Conventions

variable {c : Conventions} {t : Text} {stop p q : Nat}

/-- What opens first from `p` on and before `stop`, and where the next round begins. -/
def round? (c : Conventions) (t : Text) (stop p : Nat) : Option (Opening × Nat) :=
  (Text.firstBetween (fun q => (c.openAt t q).isSome) p stop).bind (c.openAt t)

inductive Rounds (c : Conventions) (t : Text) (stop : Nat) : Nat → List Opening → Prop where
  | done {p : Nat} : c.round? t stop p = none → Rounds c t stop p []
  | next {p q : Nat} {x : Opening} {rest : List Opening} : c.round? t stop p = some (x, q) →
      Rounds c t stop q rest → Rounds c t stop p (x :: rest)

/-- In every text a comment ends past the place where it opens, and a round past the place where it
began. -/
structure Progresses (c : Conventions) : Prop where
  comment : ∀ t p, t.occursAt p c.comment = true → p < commentEnd t p
  round : ∀ t stop p x q, c.round? t stop p = some (x, q) → p < q

def Ends (c : Conventions) : Prop := ∀ t stop p, ∃ xs, c.Rounds t stop p xs

theorem round?_of_le (h : stop ≤ p) : c.round? t stop p = none := by
  rw [round?, Text.firstBetween, if_neg (by omega)]
  rfl

theorem round?_of_none (h : p < stop) (hs : c.openAt t p = none) :
    c.round? t stop p = c.round? t stop (p + 1) := by
  rw [round?, Text.firstBetween, if_pos h, hs]
  rfl

theorem round?_of_some {x : Opening} (h : p < stop) (hs : c.openAt t p = some (x, q)) :
    c.round? t stop p = some (x, q) := by
  rw [round?, Text.firstBetween, if_pos h, hs]
  exact hs

theorem lt_of_round? (hc : c.Advances) {x : Opening} (h : c.round? t stop p = some (x, q)) :
    p < q := by
  obtain ⟨i, hi, hs⟩ := Option.bind_eq_some_iff.1 h
  have hpi := (Text.firstBetween_eq_some hi).1
  have hlt := (places_openAt hc t).lt hs
  omega

theorem Rounds.of_round?_eq {xs : List Opening} (hr : c.Rounds t stop q xs)
    (h : c.round? t stop p = c.round? t stop q) : c.Rounds t stop p xs := by
  cases hr with
  | done hn => exact .done (h.trans hn)
  | next hs rest => exact .next (h.trans hs) rest

theorem rounds_openings (hc : c.Advances) (t : Text) (stop p : Nat) :
    c.Rounds t stop p (c.openings t p stop) := by
  unfold openings
  fun_induction Text.sweep (c.openAt t) p stop with
  | case1 p hp hn ih => exact ih.of_round?_eq (round?_of_none hp hn)
  | case2 p hp x q hs ih =>
    -- the sweep would force a step where the round made none, but each round moves on
    have hlt := (places_openAt hc t).lt hs
    rw [Nat.max_eq_left (by omega)] at ih ⊢
    exact .next (round?_of_some hp hs) ih
  | case3 p hp => exact .done (round?_of_le (by omega))

theorem Rounds.unique {xs ys : List Opening} (h : c.Rounds t stop p xs)
    (h' : c.Rounds t stop p ys) : xs = ys := by
  induction h generalizing ys with
  | done hn =>
    cases h' with
    | done => rfl
    | next hs => simp [hn] at hs
  | next hs _ ih =>
    cases h' with
    | done hn => simp [hn] at hs
    | next hs' rest =>
      obtain ⟨rfl, rfl⟩ := Prod.mk.inj (Option.some.inj (hs.symm.trans hs'))
      rw [ih rest]

theorem rounds_iff (hc : c.Advances) {xs : List Opening} :
    c.Rounds t stop p xs ↔ xs = c.openings t p stop :=
  ⟨fun h => h.unique (rounds_openings hc t stop p), fun h => h ▸ rounds_openings hc t stop p⟩

theorem not_rounds_of_stalled {x : Opening} (h : c.round? t stop p = some (x, p))
    (xs : List Opening) :
    ¬ c.Rounds t stop p xs := by
  intro hr
  induction hr with
  | done hn => simp [hn] at h
  | next hs _ ih =>
    obtain ⟨-, rfl⟩ := Prod.mk.inj (Option.some.inj (h.symm.trans hs))
    exact ih h

theorem openAt_of_lineEnd {ch : Char} (hp : t[p]? = some ch) (hend : isLineEnd ch = true)
    (hcom : t.occursAt p c.comment = true) :
    c.openAt t p = some (.region ⟨.comment, p, p, true⟩, p) := by
  have hlt : p < t.size := (Array.getElem?_eq_some_iff.1 hp).1
  have hhere : commentEnd t p = p := (commentEnd_eq_iff (Nat.le_of_lt hlt)).2
    ⟨Nat.le_refl p, Nat.le_of_lt hlt, fun i hi hi' => by omega, .inr ⟨ch, hp, hend⟩⟩
  rw [openAt, if_pos hcom, hhere]

theorem occursAt_toArray (w : List Char) : Text.occursAt w.toArray 0 w = true :=
  Text.occursAt_iff_slice.2 (by simp [Text.slice])

/-- A text in which the scan stays at its first character. -/
theorem exists_stalled (hc : ¬ c.Advances) :
    ∃ (t : Text) (ch : Char), t[0]? = some ch ∧ isLineEnd ch = true ∧
      t.occursAt 0 c.comment = true := by
  cases hcomment : c.comment with
  | nil => exact ⟨#['\n'], '\n', rfl, rfl, rfl⟩
  | cons ch rest =>
    refine ⟨(ch :: rest).toArray, ch, by simp, ?_, occursAt_toArray _⟩
    by_contra hno
    refine hc ⟨by simp [hcomment], fun ch' hch' => ?_⟩
    rw [hcomment, List.head?_cons, Option.some.injEq] at hch'
    simpa [← hch'] using hno

theorem progresses_iff : c.Progresses ↔ c.Advances := by
  constructor
  · intro h
    by_contra hc
    obtain ⟨t, ch, hch, hend, hcom⟩ := exists_stalled hc
    have hsize : 0 < t.size := (Array.getElem?_eq_some_iff.1 hch).1
    have hlt := h.round t t.size 0 _ 0 (round?_of_some hsize (openAt_of_lineEnd hch hend hcom))
    omega
  · exact fun hc => ⟨fun t p => lt_commentEnd hc, fun t stop p x q => lt_of_round? hc⟩

theorem ends_iff : c.Ends ↔ c.Advances := by
  constructor
  · intro h
    by_contra hc
    obtain ⟨t, ch, hch, hend, hcom⟩ := exists_stalled hc
    have hsize : 0 < t.size := (Array.getElem?_eq_some_iff.1 hch).1
    obtain ⟨xs, hxs⟩ := h t t.size 0
    exact not_rounds_of_stalled (round?_of_some hsize (openAt_of_lineEnd hch hend hcom)) xs hxs
  · exact fun hc t stop p => ⟨_, rounds_openings hc t stop p⟩

end OrsonHighlight.Conventions
