import OrsonHighlight.Cli.Arguments
import OrsonHighlight.Proofs.AcceptedModes

set_option autoImplicit false

namespace OrsonHighlight.Cli

namespace Word

theorem ne_divider_of_ofChars {w : String} {x : Word} (h : ofChars w.toList = .ok x) :
    w ≠ "--" := by
  rintro rfl
  have hambiguous : ofChars "--".toList = .error (.ambiguous "--"
      ["--help", "--output", "--format", "--range", "--config", "--debug", "--verbose"]) := rfl
  cases hambiguous.symm.trans h

theorem ofChars_ne_divider (w : List Char) : ofChars w ≠ .ok .divider := by
  intro h
  have hunknown : unknown w ≠ .divider := by
    unfold unknown
    split <;> simp
  unfold ofChars at h
  split at h
  · cases h
  split at h
  · cases h
  dsimp only at h
  split at h
  · cases h
  split at h
  · unfold lettered at h
    split at h
    · cases h
    · exact hunknown (Except.ok.inj h)
  · unfold abbreviated at h
    dsimp only at h
    split at h
    · exact hunknown (Except.ok.inj h)
    · cases h
    · cases h

theorem ofStrings_cons {w : String} {x : Word} {rest : List String} {words : List (String × Word)}
    (hx : ofChars w.toList = .ok x) (hwords : ofStrings rest = .ok words) :
    ofStrings (w :: rest) = .ok ((w, x) :: words) := by
  rw [ofStrings, if_neg (ne_divider_of_ofChars hx), hx, hwords]
  rfl

theorem ofStrings_eq_cons {argv : List String} {w : String} {x : Word}
    {words : List (String × Word)}
    (h : ofStrings argv = .ok ((w, x) :: words)) (hx : x ≠ .divider) :
    ∃ rest, argv = w :: rest ∧ ofChars w.toList = .ok x ∧ ofStrings rest = .ok words := by
  cases argv with
  | nil => cases h
  | cons w' rest =>
    unfold ofStrings at h
    split at h
    · cases h
      exact absurd rfl hx
    · obtain ⟨x', hx', h⟩ := bind_eq_ok_iff.1 h
      obtain ⟨words', hwords, h⟩ := bind_eq_ok_iff.1 h
      cases h
      exact ⟨rest, rfl, hx', hwords⟩

theorem ofStrings_eq_divider {argv : List String} {w : String} {words : List (String × Word)}
    (h : ofStrings argv = .ok ((w, .divider) :: words)) :
    ∃ rest, argv = "--" :: rest ∧ words = rest.map fun v => (v, .plain) := by
  cases argv with
  | nil => cases h
  | cons w' rest =>
    unfold ofStrings at h
    split at h
    · rename_i hw
      cases h
      exact ⟨rest, by rw [hw], rfl⟩
    · obtain ⟨x, hx, h⟩ := bind_eq_ok_iff.1 h
      obtain ⟨words', -, h⟩ := bind_eq_ok_iff.1 h
      cases h
      exact absurd hx (ofChars_ne_divider _)

theorem ofStrings_eq_nil {argv : List String} (h : ofStrings argv = .ok []) : argv = [] := by
  cases argv with
  | nil => rfl
  | cons w rest =>
    unfold ofStrings at h
    split at h
    · cases h
    · obtain ⟨x, -, h⟩ := bind_eq_ok_iff.1 h
      obtain ⟨words, -, h⟩ := bind_eq_ok_iff.1 h
      cases h

end Word

def Cluster.ofString? (w : String) : Option Cluster :=
  match Word.ofChars w.toList with
  | .ok (.switch (some s) letter value?) => (Cluster.ofSwitch s letter value?).toOption
  | _ => none

theorem Cluster.ofString?_eq_some_iff {w : String} {c : Cluster} :
    Cluster.ofString? w = some c ↔
      ∃ s letter value?, Word.ofChars w.toList = .ok (.switch (some s) letter value?) ∧
      Cluster.ofSwitch s letter value? = .ok c := by
  constructor
  · intro h
    unfold ofString? at h
    split at h
    · rename_i s letter value? hw
      cases hc : ofSwitch s letter value? with
      | error e => simp [hc, Except.toOption] at h
      | ok c' =>
        rw [hc] at h
        exact ⟨s, letter, value?, hw, hc.trans (congrArg Except.ok (Option.some.inj h))⟩
    · cases h
  · rintro ⟨s, letter, value?, hw, hc⟩
    simp [ofString?, hw, hc, Except.toOption]

theorem Cluster.ne_divider {w : String} {c : Cluster} (h : Cluster.ofString? w = some c) :
    w ≠ "--" := by
  obtain ⟨s, letter, value?, hw, -⟩ := ofString?_eq_some_iff.1 h
  exact Word.ne_divider_of_ofChars hw

def IsPlain (w : String) : Prop := Word.ofChars w.toList = .ok .plain

/-- The value of a cluster, in its own word or the next, and the words after it. -/
inductive Cluster.Supplied (c : Cluster) :
    List String → Option (Switch × String) → List String → Prop where
  | none {rest : List String} : c.last = none → Supplied c rest none rest
  | own {s : Switch} {v : String} {rest : List String} : c.last = some (s, some v) →
      Supplied c rest (some (s, v)) rest
  | next {s : Switch} {v : String} {rest : List String} : c.last = some (s, none) → IsPlain v →
      Supplied c (v :: rest) (some (s, v)) rest

namespace Progress

/-- The ways in which words are taken with none left over. -/
inductive Takes : Progress → List String → Progress → Prop where
  | done (p : Progress) : Takes p [] p
  | input {p q : Progress} {w : String} {rest : List String} : p.input = none → IsPlain w →
      rest.head? ≠ some "--" → Takes { p with input := some w } rest q → Takes p (w :: rest) q
  | inputDivider {p : Progress} {w : String} : p.input = none → IsPlain w →
      Takes p [w, "--"] { p with input := some w }
  | dividerInput {p : Progress} {v : String} :
      p.input = none → Takes p ["--", v] { p with input := some v }
  | cluster {p p' q : Progress} {w : String} {c : Cluster} {rest rest' : List String}
      {last : Option (Switch × String)} :
      Cluster.ofString? w = some c → c.Supplied rest last rest' →
      p.take c.flags last = .ok p' → Takes p' rest' q → Takes p (w :: rest) q

theorem flag_extras {p q : Progress} {s : Switch} (h : p.flag s = .ok q) : q.extras = p.extras := by
  cases s <;> cases h <;> rfl

theorem value_extras {p q : Progress} {v : Setting} {s : Switch} (h : p.value v s = .ok q) :
    q.extras = p.extras := by
  cases s with
  | format =>
    unfold value at h
    cases hc : checkFormat v with
    | error e => rw [hc] at h; cases h
    | ok _ => rw [hc] at h; cases h; rfl
  | _ => cases h; rfl

theorem foldlM_flag_extras {flags : List Switch} {p q : Progress}
    (h : flags.foldlM flag p = .ok q) :
    q.extras = p.extras := by
  induction flags generalizing p with
  | nil => cases h; rfl
  | cons s flags ih =>
    obtain ⟨p', hp', h⟩ := bind_eq_ok_iff.1 (List.foldlM_cons.symm.trans h)
    exact (ih h).trans (flag_extras hp')

theorem take_extras {p q : Progress} {flags : List Switch} {last : Option (Switch × String)}
    (h : p.take flags last = .ok q) : q.extras = p.extras := by
  obtain ⟨p', hp', h⟩ := bind_eq_ok_iff.1 h
  cases last with
  | none => cases h; exact foldlM_flag_extras hp'
  | some x => exact (value_extras h).trans (foldlM_flag_extras hp')

theorem extras_of_take_bind {p q : Progress} {flags : List Switch} {last : Option (Switch × String)}
    {f : Progress → Except Stop Progress} (h : p.take flags last >>= f = .ok q)
    (hf : ∀ p, f p = .ok q → p.extras = []) : p.extras = [] := by
  obtain ⟨p', hp', h⟩ := bind_eq_ok_iff.1 h
  rw [← take_extras hp']
  exact hf p' h

theorem extras_of_read {p q : Progress} {words : List (String × Word)} (h : p.read words = .ok q)
    (hq : q.extras = []) : p.extras = [] := by
  fun_induction Progress.read p words with
  | case1 => cases h; exact hq
  | case3 _ _ _ _ _ ih | case4 _ _ _ _ _ ih | case5 _ _ _ _ _ _ ih => exact ih h
  | case2 _ _ _ _ _ ih | case6 _ _ _ _ ih | case7 _ _ _ _ _ ih =>
    exact absurd (ih h) (by simp [addExtra])
  | case9 _ _ _ _ _ _ _ _ _ _ _ ih | case11 _ _ _ _ _ _ _ _ _ _ _ ih
  | case12 _ _ _ _ _ _ _ _ _ ih =>
    exact extras_of_take_bind h ih
  | case8 | case10 => cases h

theorem eq_nil_of_read_plain {p q : Progress} {w : String} {rest : List String}
    (h : ({ p with input := some w } : Progress).read (rest.map fun v => (v, .plain)) = .ok q)
    (hq : q.extras = []) :
    rest = [] := by
  cases rest with
  | nil => rfl
  | cons v rest => exact absurd (extras_of_read (p := addExtra _ v) h hq) (by simp [addExtra])

theorem takes_of_read {p q : Progress} {argv : List String} {words : List (String × Word)}
    (hwords : Word.ofStrings argv = .ok words) (h : p.read words = .ok q) (hq : q.extras = []) :
    Takes p argv q := by
  fun_induction Progress.read p words generalizing argv with
  | case1 p =>
    obtain rfl := Word.ofStrings_eq_nil hwords
    cases h
    exact .done _
  | case3 p w d rest hin ih =>
    obtain ⟨argv, rfl, hplain, hwords⟩ := Word.ofStrings_eq_cons hwords (by simp)
    obtain ⟨argv, rfl, rfl⟩ := Word.ofStrings_eq_divider hwords
    obtain rfl := eq_nil_of_read_plain h hq
    cases h
    exact .inputDivider hin hplain
  | case4 p w rest hrest hin ih =>
    obtain ⟨argv, rfl, hplain, hwords⟩ := Word.ofStrings_eq_cons hwords (by simp)
    refine .input hin hplain (fun hhead => ?_) (ih hwords h)
    obtain ⟨argv', rfl⟩ := List.head?_eq_some_iff.1 hhead
    exact hrest _ _ (Except.ok.inj hwords).symm
  | case5 p w v x rest hin ih =>
    obtain ⟨argv, rfl, hargv⟩ := Word.ofStrings_eq_divider hwords
    cases argv with
    | nil => cases hargv
    | cons v' argv =>
      cases hargv
      obtain rfl := eq_nil_of_read_plain h hq
      cases h
      exact .dividerInput hin
  | case2 | case6 | case7 => exact absurd (extras_of_read h hq) (by simp [addExtra])
  | case8 | case10 => cases h
  | case9 p w s letter value? c hc last v rest hlast ih =>
    obtain ⟨argv, rfl, hw, hwords⟩ := Word.ofStrings_eq_cons hwords (by simp)
    obtain ⟨argv, rfl, hplain, hwords⟩ := Word.ofStrings_eq_cons hwords (by simp)
    obtain ⟨p', hp', h⟩ := bind_eq_ok_iff.1 h
    exact .cluster (Cluster.ofString?_eq_some_iff.2 ⟨_, _, _, hw, hc⟩)
      (.next hlast hplain) hp' (ih p' hwords h)
  | case11 p w s letter value? c hc last v rest hlast ih =>
    obtain ⟨argv, rfl, hw, hwords⟩ := Word.ofStrings_eq_cons hwords (by simp)
    obtain ⟨p', hp', h⟩ := bind_eq_ok_iff.1 h
    exact .cluster (Cluster.ofString?_eq_some_iff.2 ⟨_, _, _, hw, hc⟩)
      (.own hlast) hp' (ih p' hwords h)
  | case12 p w s letter value? c hc rest hlast ih =>
    obtain ⟨argv, rfl, hw, hwords⟩ := Word.ofStrings_eq_cons hwords (by simp)
    obtain ⟨p', hp', h⟩ := bind_eq_ok_iff.1 h
    exact .cluster (Cluster.ofString?_eq_some_iff.2 ⟨_, _, _, hw, hc⟩)
      (.none hlast) hp' (ih p' hwords h)

theorem Takes.exists_read {p q : Progress} {argv : List String} (h : Takes p argv q) :
    ∃ words, Word.ofStrings argv = .ok words ∧ p.read words = .ok q := by
  induction h with
  | done p => exact ⟨[], rfl, rfl⟩
  | @input p q w rest hin hplain hhead _ ih =>
    obtain ⟨words, hwords, hread⟩ := ih
    refine ⟨(w, .plain) :: words, Word.ofStrings_cons hplain hwords, ?_⟩
    rw [Progress.read.eq_def]
    dsimp only
    split
    · rename_i hin'
      cases hin.symm.trans hin'
    · obtain ⟨rest', rfl, -⟩ := Word.ofStrings_eq_divider hwords
      exact absurd rfl hhead
    · exact hread
  | @inputDivider p w hin hplain =>
    refine ⟨_, Word.ofStrings_cons hplain rfl, ?_⟩
    simp only [Progress.read, hin, List.map_nil]
  | @dividerInput p v hin =>
    refine ⟨_, rfl, ?_⟩
    simp only [Progress.read, hin, List.map_cons, List.map_nil]
  | @cluster p p' q w c rest rest' last hw hsupplied htake _ ih =>
    obtain ⟨words, hwords, hread⟩ := ih
    obtain ⟨s, letter, value?, hx, hc⟩ := Cluster.ofString?_eq_some_iff.1 hw
    have hread' : (p.take c.flags last >>= fun p => p.read words) = .ok q :=
      bind_eq_ok_iff.2 ⟨p', htake, hread⟩
    cases hsupplied with
    | none hlast =>
      refine ⟨_, Word.ofStrings_cons hx hwords, ?_⟩
      simpa only [Progress.read, hc, hlast] using hread'
    | own hlast =>
      refine ⟨_, Word.ofStrings_cons hx hwords, ?_⟩
      simpa only [Progress.read, hc, hlast] using hread'
    | next hlast hplain =>
      refine ⟨_, Word.ofStrings_cons hx (Word.ofStrings_cons hplain hwords), ?_⟩
      simpa only [Progress.read, hc, hlast] using hread'

theorem finish_eq_ok_iff {p : Progress} {args : Arguments} :
    p.finish = .ok args ↔ p.extras = [] ∧ ∃ w, p.input = some w ∧
      args = { p.arguments with input := w } := by
  unfold finish
  split
  · simp [*]
  · rename_i w hin hextras
    simp [hin, hextras, eq_comm]
  · rename_i hextras
    exact ⟨nofun, fun h => absurd h.1 hextras⟩

end Progress

theorem Arguments.parse_eq_ok_iff {argv : List String} {args : Arguments} :
    Arguments.parse argv = .ok args ↔ ∃ p, Progress.start.Takes argv p ∧ p.finish = .ok args := by
  constructor
  · intro h
    unfold Arguments.parse at h
    split at h
    · cases h
    · rename_i words hwords
      obtain ⟨p, hp, hfinish⟩ := bind_eq_ok_iff.1 h
      exact ⟨p, Progress.takes_of_read hwords hp (Progress.finish_eq_ok_iff.1 hfinish).1, hfinish⟩
  · rintro ⟨p, hp, hfinish⟩
    obtain ⟨words, hwords, hread⟩ := hp.exists_read
    rw [Arguments.parse, hwords]
    exact bind_eq_ok_iff.2 ⟨p, hread, hfinish⟩

end OrsonHighlight.Cli
