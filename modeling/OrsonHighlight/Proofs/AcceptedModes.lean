import OrsonHighlight.Config
import OrsonHighlight.Proofs.Compositing
import OrsonHighlight.Proofs.ScanProgress

/-!
Modes that come of configurations. Their delimiter is not empty and their comment trigger is one
character, which may be a line end; they can be read to the end in every text exactly if it is none.
-/

set_option autoImplicit false

namespace OrsonHighlight

theorem bind_eq_ok_iff {ε α β : Type} {x : Except ε α} {f : α → Except ε β} {b : β} :
    x >>= f = .ok b ↔ ∃ a, x = .ok a ∧ f a = .ok b := by
  cases x with
  | error e => exact ⟨fun h => by simp [bind, Except.bind] at h, fun ⟨_, h, _⟩ => by simp at h⟩
  | ok a => exact ⟨fun h => ⟨a, rfl, h⟩, fun ⟨_, h, hf⟩ => Except.ok.inj h ▸ hf⟩

theorem bind_eq_error_iff {ε α β : Type} {x : Except ε α} {f : α → Except ε β} {e : ε} :
    x >>= f = .error e ↔ x = .error e ∨ ∃ a, x = .ok a ∧ f a = .error e := by
  cases x with
  | error e' =>
    constructor
    · intro h
      exact .inl (congrArg Except.error (Except.error.inj h))
    · rintro (h | ⟨a, h, -⟩)
      · exact congrArg Except.error (Except.error.inj h)
      · cases h
  | ok a =>
    constructor
    · exact fun h => .inr ⟨a, rfl, h⟩
    · rintro (h | ⟨a', h, hf⟩)
      · cases h
      · exact Except.ok.inj h ▸ hf

namespace Config

theorem stringOr_eq_ok_iff {fault : Fault} {accept : String → Bool}
    {value : Option String} {s : String} :
    stringOr fault accept value = .ok s ↔ value = some s ∧ accept s = true := by
  cases value with
  | none => simp [stringOr]
  | some v => grind [stringOr]

/-- Settings that pass every check: each is configured or that of the base. -/
structure Strings.Accepted (settings : Toml.Entries) (base : Mode) (s : Strings) : Prop where
  name : setting settings "name" base.name = some s.name
  name_ne : s.name ≠ ""
  commentStart : setting settings "comment_start" base.commentStart = some s.commentStart
  length_commentStart : s.commentStart.length = 1
  stringDelimiter : setting settings "string_delimiter" base.stringDelimiter =
    some s.stringDelimiter
  stringDelimiter_ne : s.stringDelimiter ≠ ""
  delimiter_apart : ∀ ch ∈ s.commentStart.toList, ch ∉ s.stringDelimiter.toList
  wordChars : setting settings "word_chars" base.wordChars = some s.wordChars
  wordChars_apart : ∀ ch ∈ s.commentStart.toList ++ s.stringDelimiter.toList.take 1,
    ch ∉ s.wordChars.toList

theorem check_eq_ok_iff {β : Type} {b : Bool} {fault : Fault}
    {rest : Unit → Except Fault β} {r : β} :
    (if b = true then throw fault >>= rest else rest ()) = .ok r ↔ b = false ∧ rest () = .ok r := by
  cases b with
  | false => simp
  | true =>
    constructor
    · intro h
      cases h
    · rintro ⟨h, -⟩
      cases h

theorem Strings.Accepted.exists_char {settings : Toml.Entries} {base : Mode} {s : Strings}
    (h : s.Accepted settings base) : ∃ ch, s.commentStart.toList = [ch] :=
  List.length_eq_one_iff.1 (String.length_toList.trans h.length_commentStart)

theorem strings_eq_ok_iff {settings : Toml.Entries} {base : Mode} {s : Strings} :
    strings settings base = .ok s ↔ s.Accepted settings base := by
  unfold strings
  simp only [bind_eq_ok_iff, stringOr_eq_ok_iff, check_eq_ok_iff]
  simp only [decide_eq_true_eq, and_true, List.any_eq_false, List.contains_iff_mem]
  constructor
  · rintro ⟨name, ⟨hname, hne⟩, comment, ⟨hcomment, hone⟩, delimiter, ⟨hdelimiter, hdne⟩,
      hapart, word, hword, hclash, h⟩
    obtain rfl := Except.ok.inj h
    exact ⟨hname, hne, hcomment, hone, hdelimiter, hdne, hapart, hword, hclash⟩
  · intro h
    exact ⟨_, ⟨h.name, h.name_ne⟩, _, ⟨h.commentStart, h.length_commentStart⟩, _,
      ⟨h.stringDelimiter, h.stringDelimiter_ne⟩, h.delimiter_apart, _, h.wordChars,
      h.wordChars_apart, rfl⟩

theorem accepted_of_mode {config : Toml.Entries} {base m : Mode} (h : mode config base = .ok m) :
    ∃ entries, settings config = .ok entries ∧
      Strings.Accepted entries base ⟨m.name, m.commentStart, m.stringDelimiter, m.wordChars⟩ := by
  obtain ⟨⟨d, touched⟩, -, h⟩ := bind_eq_ok_iff.1 h
  obtain ⟨entries, hentries, h⟩ := bind_eq_ok_iff.1 h
  obtain ⟨s, hs, h⟩ := bind_eq_ok_iff.1 h
  obtain rfl := Except.ok.inj h
  exact ⟨entries, hentries, strings_eq_ok_iff.1 hs⟩

end Config

theorem Conventions.advances_iff_isLineEnd {c : Conventions} {ch : Char}
    (hcomment : c.comment = [ch]) :
    c.Advances ↔ isLineEnd ch = false := by
  constructor
  · exact fun h => h.head ch (by simp [hcomment])
  · refine fun h => ⟨by simp [hcomment], fun ch' hch' => ?_⟩
    rw [hcomment, List.head?_cons, Option.some.injEq] at hch'
    rwa [← hch']

theorem Mode.scannable_iff_isLineEnd {m : Mode} {ch : Char} (hd : m.stringDelimiter ≠ "")
    (hch : m.commentStart.toList = [ch]) : m.Scannable ↔ isLineEnd ch = false := by
  obtain ⟨c, -, hcomment, -⟩ := Mode.exists_conventions hd
  exact (Mode.scannable_iff_advances hd hcomment).trans
    (Conventions.advances_iff_isLineEnd (hcomment.trans hch))

namespace Config

/-- A mode that comes of a configuration has a delimiter that is not empty and a comment trigger of
one character. Exactly if that character is no line end, every comment ends past its trigger in
every text, every round of the scan moves on, and the rounds come to an end. -/
theorem progresses_mode_iff {config : Toml.Entries} {base m : Mode} (h : mode config base = .ok m) :
    ∃ entries ch c, settings config = .ok entries ∧
      setting entries "comment_start" base.commentStart = some m.commentStart ∧
      m.commentStart.toList = [ch] ∧
      m.stringDelimiter ≠ "" ∧ m.conventions? = some c ∧ c.comment = [ch] ∧
      (m.Scannable ↔ isLineEnd ch = false) ∧ (c.Progresses ↔ isLineEnd ch = false) ∧
      (c.Ends ↔ isLineEnd ch = false) := by
  obtain ⟨entries, hentries, hs⟩ := accepted_of_mode h
  obtain ⟨ch, hch⟩ : ∃ ch, m.commentStart.toList = [ch] := hs.exists_char
  have hd : m.stringDelimiter ≠ "" := hs.stringDelimiter_ne
  obtain ⟨c, hc, hcomment, -⟩ := Mode.exists_conventions hd
  have hadv := Conventions.advances_iff_isLineEnd (hcomment.trans hch)
  exact ⟨entries, ch, c, hentries, hs.commentStart, hch, hd, hc, hcomment.trans hch,
    Mode.scannable_iff_isLineEnd hd hch, Conventions.progresses_iff.trans hadv,
    Conventions.ends_iff.trans hadv⟩

theorem progresses_mode_iff_hash :
    mode [("mode", .table [("comment_start", .string "#")])] Mode.orson =
        .ok { Mode.orson with commentStart := "#" } ∧
      ∃ c, Conventions.of? "#" "''" = some c ∧ c.Progresses ∧ c.Ends := by
  have hmode : mode [("mode", .table [("comment_start", .string "#")])] Mode.orson =
      .ok { Mode.orson with commentStart := "#" } := rfl
  obtain ⟨_, ch, c, -, -, hch, -, hc, -, -, hp, he⟩ := progresses_mode_iff hmode
  obtain rfl : '#' = ch := by simpa using hch
  exact ⟨hmode, c, hc, hp.2 rfl, he.2 rfl⟩

/-- A line end is accepted as the comment character, and the scan then stays at the first that it
finds. -/
theorem not_scannable_mode_lineFeed :
    ∃ m c, mode [("mode", .table [("comment_start", .string "\n")])] Mode.orson = .ok m ∧
      m.conventions? = some c ∧
      ¬ m.Scannable ∧ ¬ c.Progresses ∧ ∀ xs, ¬ c.Rounds #['a', '\n', 'b'] 3 0 xs := by
  refine ⟨{ Mode.orson with commentStart := "\n" }, ⟨['\n'], '\'', ['\'']⟩, rfl, rfl, ?_,
    ?_, fun xs h => ?_⟩
  · intro h
    exact absurd (h.head '\n' rfl) (by decide)
  · rw [Conventions.progresses_iff]
    intro h
    exact absurd (h.head '\n' rfl) (by decide)
  · have hfirst : Conventions.round? ⟨['\n'], '\'', ['\'']⟩ #['a', '\n', 'b'] 3 0 =
        some (.region ⟨.comment, 1, 1, true⟩, 1) := by decide +kernel
    have hstays : Conventions.round? ⟨['\n'], '\'', ['\'']⟩ #['a', '\n', 'b'] 3 1 =
        some (.region ⟨.comment, 1, 1, true⟩, 1) := by decide +kernel
    cases h with
    | done hn => simp [hfirst] at hn
    | next hs rest =>
      obtain ⟨-, rfl⟩ := Prod.mk.inj (Option.some.inj (hfirst.symm.trans hs))
      exact Conventions.not_rounds_of_stalled hstays _ rest

end Config

end OrsonHighlight
