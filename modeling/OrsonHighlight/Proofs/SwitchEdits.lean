import OrsonHighlight.Proofs.CommandLines

set_option autoImplicit false

namespace OrsonHighlight.Cli

def Switch.long : Switch → String
  | help => "--help"
  | output => "--output"
  | format => "--format"
  | range => "--range"
  | config => "--config"
  | debug => "--debug"
  | verbose => "--verbose"

namespace Cluster

def spell (c : Cluster) : List String :=
  c.flags.map Switch.long ++
    match c.last with
    | none => []
    | some (s, none) => [s.long]
    | some (s, some v) => [s.long ++ "=" ++ v]

def without (gone : Switch → Bool) (c : Cluster) : Cluster :=
  ⟨c.flags.filter (!gone ·), c.last.filter (!gone ·.1)⟩

end Cluster

/-- A command line without some of its switches, and without their values. After a divider there are
no switches. -/
def without (gone : Switch → Bool) : List String → List String
  | [] => []
  | w :: rest =>
    if w = "--" then w :: rest
    else match Cluster.ofString? w with
      | none => w :: without gone rest
      | some c =>
        let words := if c.without gone = c then [w] else (c.without gone).spell
        match c.last, rest with
        | some (s, none), v :: rest => words ++ (if gone s then [] else [v]) ++ without gone rest
        | _, rest => words ++ without gone rest

def Arguments.without (gone : Switch → Bool) (args : Arguments) : Arguments where
  input := args.input
  output := if gone .output then .unset else args.output
  format := if gone .format then .unset else args.format
  range := if gone .range then .unset else args.range
  config := if gone .config then .unset else args.config
  debug := !gone .debug && args.debug
  verbose := !gone .verbose && args.verbose

namespace Progress

def without (gone : Switch → Bool) (p : Progress) : Progress :=
  { p with arguments := p.arguments.without gone }

variable (gone : Switch → Bool)

theorem flag_without {p q : Progress} {s : Switch} (h : p.flag s = .ok q) :
    if gone s then q.without gone = p.without gone
      else (p.without gone).flag s = .ok (q.without gone) := by
  cases s <;> cases h <;> split <;> simp_all [flag, without, Arguments.without]

theorem value_without {p q : Progress} {v : Setting} {s : Switch} (h : p.value v s = .ok q) :
    if gone s then q.without gone = p.without gone
      else (p.without gone).value v s = .ok (q.without gone) := by
  cases s with
  | format =>
    unfold value at h
    cases hc : checkFormat v with
    | error e => rw [hc] at h; cases h
    | ok _ =>
      rw [hc] at h
      cases h
      split <;> simp_all [value, without, Arguments.without, Except.map]
  | _ => cases h; split <;> simp_all [value, without, Arguments.without]

theorem foldlM_flag_without {flags : List Switch} {p q : Progress}
    (h : flags.foldlM flag p = .ok q) :
    (flags.filter (!gone ·)).foldlM flag (p.without gone) = .ok (q.without gone) := by
  induction flags generalizing p with
  | nil => cases h; rfl
  | cons s flags ih =>
    obtain ⟨p', hp', h⟩ := bind_eq_ok_iff.1 (List.foldlM_cons.symm.trans h)
    have hs := flag_without gone hp'
    cases hgone : gone s with
    | true =>
      rw [hgone, if_pos rfl] at hs
      rw [List.filter_cons_of_neg (by simp [hgone]), ← hs]
      exact ih h
    | false =>
      rw [hgone, if_neg (by simp)] at hs
      rw [List.filter_cons_of_pos (by simp [hgone]), List.foldlM_cons]
      exact bind_eq_ok_iff.2 ⟨_, hs, ih h⟩

theorem take_without {p q : Progress} {flags : List Switch} {last : Option (Switch × String)}
    (h : p.take flags last = .ok q) :
    (p.without gone).take (flags.filter (!gone ·)) (last.filter (!gone ·.1)) =
      .ok (q.without gone) := by
  obtain ⟨p', hp', h⟩ := bind_eq_ok_iff.1 h
  refine bind_eq_ok_iff.2 ⟨p'.without gone, foldlM_flag_without gone hp', ?_⟩
  cases last with
  | none => cases h; rfl
  | some x =>
    obtain ⟨s, v⟩ := x
    have hs := value_without gone h
    cases hgone : gone s with
    | true =>
      rw [hgone, if_pos rfl] at hs
      simp [Option.filter, hgone, hs, pure, Except.pure]
    | false =>
      rw [hgone, if_neg (by simp)] at hs
      simpa [Option.filter, hgone] using hs

end Progress

namespace Cluster

structure Proper (c : Cluster) : Prop where
  flags : ∀ s ∈ c.flags, s.takesValue = false
  last : ∀ x ∈ c.last, x.1.takesValue = true

theorem proper_bare (s : Switch) : (bare s).Proper := by
  cases s <;> exact ⟨by decide, by decide⟩

theorem Proper.cons {c : Cluster} {s : Switch} (hs : s.takesValue = false) (h : c.Proper) :
    (cons s c).Proper :=
  ⟨List.forall_mem_cons.2 ⟨hs, h.flags⟩, h.last⟩

theorem proper_of_attached {s : Switch} {letter : Bool} {value : List Char} {c : Cluster}
    (h : attached s letter value = .ok c) : c.Proper := by
  fun_induction attached s letter value generalizing c with
  | case1 s letter hs => cases h; exact ⟨by simp, by simp [hs]⟩
  | case2 => cases h
  | case3 s letter ch rest hs => cases h; exact ⟨by simp, by simp [hs]⟩
  | case4 => cases h
  | case5 => cases h
  | case6 s letter ch rest hs _ next _ ih =>
    split at h
    · cases h
      exact (proper_bare next).cons (by simpa using hs)
    · cases hnext : attached next true rest with
      | error e => rw [hnext] at h; cases h
      | ok c' =>
        rw [hnext] at h
        cases h
        exact (ih hnext).cons (by simpa using hs)

theorem proper_of_ofString? {w : String} {c : Cluster} (h : ofString? w = some c) : c.Proper := by
  obtain ⟨s, letter, value?, -, hc⟩ := ofString?_eq_some_iff.1 h
  cases value? with
  | none => cases hc; exact proper_bare s
  | some value => exact proper_of_attached hc

theorem Proper.without {c : Cluster} (h : c.Proper) (gone : Switch → Bool) :
    (c.without gone).Proper :=
  ⟨fun s hs => h.flags s (List.mem_of_mem_filter hs),
    fun x hx => h.last x (Option.mem_filter_iff.1 hx).1⟩

theorem ofString?_long (s : Switch) : ofString? s.long = some (bare s) := by
  cases s <;> rfl

theorem ofSpelling?_eq_none {w : String} (h : '=' ∈ w.toList) : Switch.ofSpelling? w = none := by
  have hno : ∀ x ∈ Switch.spellings, '=' ∉ x.1.toList := by decide
  rw [Switch.ofSpelling?, Option.map_eq_none_iff, List.find?_eq_none]
  intro x hx hw
  exact hno x hx (beq_iff_eq.1 hw ▸ h)

theorem splitEquals_append {name : List Char} (h : '=' ∉ name) (value : List Char) :
    Word.splitEquals (name ++ '=' :: value) = (name, some value) := by
  have hname : ∀ c ∈ name, decide (c ≠ '=') = true :=
    fun c hc => decide_eq_true fun heq => h (heq ▸ hc)
  rw [Word.splitEquals, List.dropWhile_append_of_pos hname, List.takeWhile_append_of_pos hname]
  simp

theorem ofString?_long_value {s : Switch} (hs : s.takesValue = true) (v : String) :
    ofString? (s.long ++ "=" ++ v) = some ⟨[], some (s, some v)⟩ := by
  have hword : (s.long ++ "=" ++ v).toList = s.long.toList ++ '=' :: v.toList := by simp
  refine ofString?_eq_some_iff.2 ⟨s, false, some v.toList, ?_, ?_⟩
  · have hlong : Switch.ofSpelling? (String.ofList s.long.toList) = some s := by cases s <;> rfl
    have hletter : Word.isLetter (s.long.toList ++ '=' :: v.toList) = false := by cases s <;> rfl
    have hdash : ¬ ((s.long.toList ++ '=' :: v.toList).head? ≠ some '-' ∨
        (s.long.toList ++ '=' :: v.toList).length = 1) := by cases s <;> simp [Switch.long]
    have hname : '=' ∉ s.long.toList := by cases s <;> decide
    rw [hword, Word.ofChars, if_neg hdash, ofSpelling?_eq_none (by simp)]
    dsimp only
    rw [splitEquals_append hname, hlong, hletter]
  · cases hv : v.toList with
    | nil =>
      obtain rfl := String.toList_eq_nil_iff.1 hv
      simp [ofSwitch, attached, hs]
    | cons ch rest => simp [ofSwitch, attached, hs, ← hv]

end Cluster

namespace Progress

theorem takes_flags {p p' q : Progress} {flags : List Switch} {rest : List String}
    (hflags : ∀ s ∈ flags, s.takesValue = false) (hp : flags.foldlM flag p = .ok p')
    (h : Takes p' rest q) :
    Takes p (flags.map Switch.long ++ rest) q := by
  induction flags generalizing p with
  | nil => cases hp; exact h
  | cons s flags ih =>
    obtain ⟨hs, hflags⟩ := List.forall_mem_cons.1 hflags
    obtain ⟨p₁, hp₁, hp⟩ := bind_eq_ok_iff.1 (List.foldlM_cons.symm.trans hp)
    refine .cluster (Cluster.ofString?_long s) (.none (by simp [Cluster.bare, hs])) ?_
      (ih hflags hp)
    simpa [Cluster.bare, hs, take] using hp₁

theorem takes_spell {p p' q : Progress} {c : Cluster} {rest rest' : List String}
    {last : Option (Switch × String)}
    (hc : c.Proper) (hs : c.Supplied rest last rest') (hp : p.take c.flags last = .ok p')
    (h : Takes p' rest' q) :
    Takes p (c.spell ++ rest) q := by
  obtain ⟨p₁, hp₁, hp⟩ := bind_eq_ok_iff.1 hp
  rw [Cluster.spell, List.append_assoc]
  refine takes_flags hc.flags hp₁ ?_
  cases hs with
  | none hlast =>
    cases hp
    simpa [hlast] using h
  | @own s v _ hlast =>
    have hv : s.takesValue = true := hc.last _ hlast
    rw [hlast]
    refine .cluster (Cluster.ofString?_long_value hv v) (.own rfl) ?_ h
    exact hp
  | @next s v _ hlast hplain =>
    have hv : s.takesValue = true := hc.last _ hlast
    rw [hlast]
    refine .cluster (Cluster.ofString?_long s) (.next (by rw [Cluster.bare, if_pos hv]) hplain) ?_ h
    simpa [Cluster.bare, hv, take] using hp

theorem Takes.head?_ne {p q : Progress} {argv : List String} (h : Takes p argv q)
    (hin : p.input ≠ none) :
    argv.head? ≠ some "--" := by
  cases h with
  | done => simp
  | input h => exact absurd h hin
  | inputDivider h => exact absurd h hin
  | dividerInput h => exact absurd h hin
  | cluster hw => simpa using Cluster.ne_divider hw

end Progress

theorem without_cons_plain (gone : Switch → Bool) {w : String} (h : IsPlain w)
    (rest : List String) :
    without gone (w :: rest) = w :: without gone rest := by
  have hcluster : Cluster.ofString? w = none := by
    simp only [Cluster.ofString?, show Word.ofChars _ = _ from h]
  rw [without, if_neg (Word.ne_divider_of_ofChars h), hcluster]

/-- Of a cluster its other switches are left, and the next word where that is the value of one of
them. -/
theorem without_cons_cluster (gone : Switch → Bool) {w : String} {c : Cluster}
    {rest rest' : List String}
    {last : Option (Switch × String)} (hw : Cluster.ofString? w = some c)
    (hs : c.Supplied rest last rest') :
    ∃ kept, without gone (w :: rest) =
        (if c.without gone = c then [w] else (c.without gone).spell) ++
          (kept ++ without gone rest') ∧
      ∀ tail, (c.without gone).Supplied (kept ++ tail) (last.filter (!gone ·.1)) tail := by
  cases hs with
  | none hlast =>
    refine ⟨[], ?_, fun tail => .none (by simp [Cluster.without, hlast])⟩
    rw [without, if_neg (Cluster.ne_divider hw), hw]
    simp [hlast]
  | @own s v _ hlast =>
    refine ⟨[], ?_, fun tail => ?_⟩
    · rw [without, if_neg (Cluster.ne_divider hw), hw]
      simp [hlast]
    · cases hgone : gone s with
      | true =>
        rw [Option.filter_some_neg (by simp [hgone])]
        exact .none (by simp [Cluster.without, hlast, Option.filter, hgone])
      | false =>
        rw [Option.filter_some_pos (by simp [hgone])]
        exact .own (by simp [Cluster.without, hlast, Option.filter, hgone])
  | @next s v _ hlast hplain =>
    refine ⟨if gone s then [] else [v], ?_, fun tail => ?_⟩
    · rw [without, if_neg (Cluster.ne_divider hw), hw]
      simp [hlast]
    · cases hgone : gone s with
      | true =>
        rw [Option.filter_some_neg (by simp [hgone])]
        exact .none (by simp [Cluster.without, hlast, Option.filter, hgone])
      | false =>
        rw [Option.filter_some_pos (by simp [hgone])]
        exact .next (by simp [Cluster.without, hlast, Option.filter, hgone]) hplain

namespace Progress

theorem Takes.without (gone : Switch → Bool) {p q : Progress} {argv : List String}
    (h : Takes p argv q) :
    Takes (p.without gone) (Cli.without gone argv) (q.without gone) := by
  induction h with
  | done p => exact .done _
  | @input p q w rest hin hplain _ _ ih =>
    rw [without_cons_plain gone hplain]
    -- no divider moves up to the input: one that came later would be left over
    exact .input hin hplain (ih.head?_ne (by simp [Progress.without])) ih
  | inputDivider hin hplain =>
    rw [without_cons_plain gone hplain]
    exact .inputDivider hin hplain
  | dividerInput hin => exact .dividerInput hin
  | @cluster p p' q w c rest rest' last hw hs htake _ ih =>
    obtain ⟨kept, hwords, hkept⟩ := without_cons_cluster gone hw hs
    have htake' : (p.without gone).take (c.without gone).flags _ = _ := take_without gone htake
    rw [hwords]
    split
    · -- none of its switches is gone, and the word stays as it is
      rename_i hsame
      rw [hsame] at hkept htake'
      exact .cluster hw (hkept _) htake' ih
    · exact takes_spell ((Cluster.proper_of_ofString? hw).without gone) (hkept _) htake' ih

end Progress

theorem Arguments.parse_without (gone : Switch → Bool) {argv : List String} {args : Arguments}
    (h : Arguments.parse argv = .ok args) :
    Arguments.parse (Cli.without gone argv) = .ok (args.without gone) := by
  obtain ⟨p, hp, hfinish⟩ := parse_eq_ok_iff.1 h
  obtain ⟨hextras, w, hw, rfl⟩ := Progress.finish_eq_ok_iff.1 hfinish
  refine parse_eq_ok_iff.2 ⟨p.without gone, ?_, Progress.finish_eq_ok_iff.2 ⟨hextras, w, hw, rfl⟩⟩
  have hstart : Progress.start.without gone = Progress.start := by
    simp [Progress.without, Arguments.without, Progress.start]
  exact hstart ▸ hp.without gone

example :
    without (fun s => s = .output ∨ s = .debug) ["-vo", "x.txt", "--deb", "-f", "json",
      "a.op", "--out=y"] =
    ["--verbose", "-f", "json", "a.op"] := by decide +kernel

def Arguments.telling (debug verbose : Bool) (args : Arguments) : Arguments :=
  { args with debug := args.debug || debug, verbose := args.verbose || verbose }

namespace Progress

def telling (debug verbose : Bool) (p : Progress) : Progress :=
  { p with arguments := p.arguments.telling debug verbose }

variable (debug verbose : Bool)

theorem flag_telling (p : Progress) (s : Switch) :
    (p.telling debug verbose).flag s = (p.flag s).map (telling debug verbose) := by
  cases s <;> simp [flag, telling, Arguments.telling, Except.map]

theorem value_telling (p : Progress) (v : Setting) (s : Switch) :
    (p.telling debug verbose).value v s = (p.value v s).map (telling debug verbose) := by
  cases s with
  | format =>
    unfold value
    cases checkFormat v <;> rfl
  | _ => rfl

theorem foldlM_flag_telling (flags : List Switch) (p : Progress) :
    flags.foldlM flag (p.telling debug verbose) =
      (flags.foldlM flag p).map (telling debug verbose) := by
  induction flags generalizing p with
  | nil => rfl
  | cons s flags ih =>
    rw [List.foldlM_cons, List.foldlM_cons, flag_telling]
    cases p.flag s with
    | error e => rfl
    | ok p' => exact ih p'

theorem take_telling (p : Progress) (flags : List Switch) (last : Option (Switch × String)) :
    (p.telling debug verbose).take flags last =
      (p.take flags last).map (telling debug verbose) := by
  rw [take, take, foldlM_flag_telling]
  cases flags.foldlM flag p with
  | error e => rfl
  | ok p' =>
    cases last with
    | none => rfl
    | some x => exact value_telling debug verbose p' _ _

theorem take_bind_telling (p : Progress) (flags : List Switch) (last : Option (Switch × String))
    {f : Progress → Except Stop Progress}
    (hf : ∀ p, f (p.telling debug verbose) = (f p).map (telling debug verbose)) :
    (p.telling debug verbose).take flags last >>= f =
      (p.take flags last >>= f).map (telling debug verbose) := by
  rw [take_telling]
  cases p.take flags last with
  | error e => rfl
  | ok p' => exact hf p'

theorem read_telling (p : Progress) (words : List (String × Word)) :
    (p.telling debug verbose).read words = (p.read words).map (telling debug verbose) := by
  fun_induction Progress.read p words with
  | case1 => rfl
  | case3 _ _ _ _ hin ih | case4 _ _ _ _ hin ih | case5 _ _ _ _ _ hin ih =>
    simpa only [Progress.read, telling, hin] using ih
  | case2 _ _ _ _ hin ih => simpa only [Progress.read, telling, addExtra, hin] using ih
  | case6 _ _ _ _ ih | case7 _ _ _ _ _ ih => simpa only [Progress.read, telling, addExtra] using ih
  | case8 _ _ _ _ _ _ _ hc => simp only [Progress.read, hc, Except.map]
  | case10 _ _ _ _ _ _ _ hc _ hlast => simp only [Progress.read, hc, hlast, Except.map]
  | case9 p _ _ _ _ c hc _ _ _ hlast ih | case11 p _ _ _ _ c hc _ _ _ hlast ih
  | case12 p _ _ _ _ c hc _ hlast ih =>
    simpa only [Progress.read, hc, hlast] using take_bind_telling debug verbose p c.flags _ ih

theorem finish_telling (p : Progress) :
    (p.telling debug verbose).finish = p.finish.map (Arguments.telling debug verbose) := by
  unfold finish
  cases hin : p.input <;> cases hextras : p.extras <;>
    simp [telling, hin, hextras, Except.map, Arguments.telling]

end Progress

/-- A flag in front of any command line is taken before its words are. -/
theorem Arguments.parse_cons_flag {w : String} {s : Switch} {letter debug verbose : Bool}
    (hw : Word.ofChars w.toList = .ok (.switch (some s) letter none)) (hs : s.takesValue = false)
    (hstart : Progress.start.flag s = .ok (Progress.start.telling debug verbose))
    (argv : List String) :
    Arguments.parse (w :: argv) = (Arguments.parse argv).map (Arguments.telling debug verbose) := by
  rw [Arguments.parse, Arguments.parse, Word.ofStrings, if_neg (Word.ne_divider_of_ofChars hw), hw]
  cases Word.ofStrings argv with
  | error e => rfl
  | ok words =>
    have hbare : Cluster.bare s = ⟨[s], none⟩ := by simp [Cluster.bare, hs]
    have htake : Progress.start.take [s] none = .ok (Progress.start.telling debug verbose) := by
      simpa [Progress.take] using hstart
    have hread : Progress.start.read ((w, .switch (some s) letter none) :: words) =
        (Progress.start.read words).map (Progress.telling debug verbose) := by
      simp only [Progress.read, Cluster.ofSwitch, hbare, htake, ← Progress.read_telling]
      rfl
    dsimp only [Except.bind, bind, pure, Except.pure]
    rw [hread]
    cases Progress.start.read words with
    | error e => rfl
    | ok p => exact Progress.finish_telling debug verbose p

end OrsonHighlight.Cli
