import OrsonHighlight.Proofs.AcceptedModes
import OrsonHighlight.Proofs.LongestLexemes
import OrsonHighlight.Proofs.MaximalRuns

/-!
Lexemes that a comment follows at once. Where no lexeme mixes letters with other characters, one
that begins a text is read before a comment as it is before a blank, unless the comment character
goes on with what the lexeme ends in.
-/

set_option autoImplicit false

namespace OrsonHighlight

theorem Text.getElem?_of_occursAt {t : Text} {p : Nat} {w : List Char}
    (h : t.occursAt p w = true) {i : Nat} (hi : i < w.length) : t[p + i]? = w[i]? := by
  induction w generalizing p i with
  | nil => simp at hi
  | cons ch rest ih =>
    simp only [occursAt_cons, Bool.and_eq_true, beq_iff_eq] at h
    cases i with
    | zero => simpa using h.1
    | succ i =>
      rw [show p + (i + 1) = p + 1 + i by omega, List.getElem?_cons_succ]
      exact ih h.2 (by simpa using hi)

def Text.begun (w s : List Char) : Text := (w ++ s).toArray

theorem Text.getElem?_begun_of_lt {w : List Char} (s : List Char) {i : Nat} (hi : i < w.length) :
    (begun w s)[i]? = some w[i] := by
  rw [begun, List.getElem?_toArray, List.getElem?_append_left hi, List.getElem?_eq_getElem hi]

theorem Text.getElem?_begun_add (w s : List Char) (i : Nat) :
    (begun w s)[w.length + i]? = s[i]? := by
  rw [begun, List.getElem?_toArray, List.getElem?_append_right (Nat.le_add_right _ _),
    Nat.add_sub_cancel_left]

theorem Text.lt_size_begun {w : List Char} (s : List Char) {i : Nat} (hi : i < w.length) :
    i < (begun w s).size := by
  rw [begun, List.size_toArray, List.length_append]
  omega

theorem Text.slice_begun (w s : List Char) :
    (begun w s).slice 0 w.length = w := by simp [begun, slice]

theorem CompiledTable.claims_of_matchesAt_zero {T : LexemeTable} {wordChars w : String}
    {g : GuardedLexeme}
    {t : Text} (hw : w ∈ T.lexemes) (hg : GuardedLexeme.ofWord? wordChars.toList w = some g)
    (hmatch : g.matchesAt wordChars.toList t 0 = true) {o : Nat} (ho : o < g.length)
    (ht : 0 < t.size) :
    (T.compile wordChars).claims t 0 t.size o = true := by
  obtain ⟨n, hn, hle⟩ := LexemeTable.exists_matchAt hw hg hmatch
  have hstep : (T.pattern wordChars).step t 0 = some ((0, n), n) :=
    Pattern.step_eq_some.2 ⟨n, hn, by simp, by simp⟩
  have hmem : (0, n) ∈ (T.pattern wordChars).hits t 0 t.size := by
    rw [Pattern.hits, (Pattern.places_step _ t).sweep_of_some (by simpa using ht) hstep]
    exact List.mem_cons_self ..
  exact CompiledTable.claims_iff.2 ⟨(0, n), hmem, by simp, by simp; omega⟩

/-- A word of letters and digits, or one with none of them. -/
def Unmixed (w : String) : Prop :=
  (∀ ch ∈ w.toList, Unicode.isAlphanumeric ch = true) ∨
    ∀ ch ∈ w.toList, Unicode.isAlphanumeric ch = false

instance (w : String) : Decidable (Unmixed w) :=
  decidable_of_iff (w.toList.all Unicode.isAlphanumeric = true ∨
    w.toList.all (!Unicode.isAlphanumeric ·) = true) (by simp [Unmixed])

/-- No lexeme mixes letters with other characters, none stands in two tables, and those without
letters stand together in one. -/
structure Dialect.Parted (d : Dialect) : Prop where
  unmixed : ∀ T ∈ d.tables, ∀ w ∈ T.lexemes, Unmixed w
  alone : ∀ T ∈ d.tables, ∀ T' ∈ d.tables, ∀ w ∈ T.lexemes, w ∈ T'.lexemes → T = T'
  signs :
    ∃ S, ∀ T ∈ d.tables, ∀ w ∈ T.lexemes, ∀ ch ∈ w.toList, Unicode.isAlphanumeric ch = false → T = S

theorem Dialect.parted_orson : Dialect.orson.Parted where
  unmixed := by decide +kernel
  alone := by decide +kernel
  signs := by
    have hall : ∀ T ∈ Dialect.orson.tables, ∀ w ∈ T.lexemes,
        w.toList.all (fun ch => Unicode.isAlphanumeric ch || T = Dialect.orson.table .operators) =
          true := by
      decide +kernel
    refine ⟨Dialect.orson.table .operators, fun T hT w hw ch hch hsign => ?_⟩
    simpa [hsign] using List.all_eq_true.1 (hall T hT w hw) ch hch

theorem Dialect.length_lexeme_orson :
    ∀ T ∈ Dialect.orson.tables, ∀ w ∈ T.lexemes, 0 < w.length ∧ w.length ≤ 8 := by
  decide +kernel

theorem Edge.bars_eq_false_iff {wordChars : List Char} {x ch : Char} :
    (Edge.ofChar wordChars x).bars wordChars ch = false ↔
      Edge.ofChar wordChars ch = .free ∨ Edge.ofChar wordChars ch ≠ Edge.ofChar wordChars x := by
  by_cases hx : Edge.ofChar wordChars x = .free
  · simp [hx, Edge.bars, em]
  · rw [← Bool.not_eq_true, Edge.bars_iff hx]
    constructor
    · exact .inr
    · rintro (hfree | hne)
      · rw [hfree]
        exact fun heq => hx heq.symm
      · exact hne

theorem Edge.ofChar_blank {wordChars : List Char} (h : ' ' ∉ wordChars) :
    Edge.ofChar wordChars ' ' = .free := by
  have hblank : Unicode.isAlphanumeric ' ' = false ∧ isSymbolChar ' ' = false := by decide +kernel
  simp [Edge.ofChar, isWordChar, hblank, h]

theorem ofChar_of_isAlphanumeric {wordChars : List Char} {ch : Char}
    (h : Unicode.isAlphanumeric ch = true) :
    Edge.ofChar wordChars ch = .word := by
  simp [Edge.ofChar, isWordChar, h]

theorem not_isAlphanumeric_of_admits {wordChars : List Char} {x : Option Char} {ch : Char}
    (h : Edge.word.admits wordChars x = true) (hx : x = some ch) :
    Unicode.isAlphanumeric ch = false := by
  subst hx
  simp [Edge.admits, Edge.bars, isWordChar] at h
  exact h.1

namespace GuardedLexeme

variable {wordChars : List Char} {g : GuardedLexeme} {t : Text} {p : Nat}

theorem matchesAt_lead {s : List Char} (h : g.after.admits wordChars s.head? = true) :
    g.matchesAt wordChars (Text.begun g.chars s) 0 = true := by
  have hoccurs : Text.occursAt (Text.begun g.chars s) 0 g.chars = true := by
    rw [Text.occursAt_iff_slice, Nat.zero_add, Text.slice_begun]
  have hnext : (Text.begun g.chars s)[0 + g.length]? = s.head? := by
    rw [Nat.zero_add, GuardedLexeme.length, ← Nat.add_zero g.chars.length, Text.getElem?_begun_add,
      List.head?_eq_getElem?]
  simp only [matchesAt, hoccurs, hnext, h]
  simp

theorem admits_before (h : g.matchesAt wordChars t p = true) :
    p = 0 ∨ g.before.admits wordChars t[p - 1]? = true := by
  simp only [matchesAt, Bool.and_eq_true, Bool.or_eq_true, beq_iff_eq] at h
  exact h.1.2

theorem admits_after (h : g.matchesAt wordChars t p = true) :
    g.after.admits wordChars t[p + g.length]? = true := by
  simp only [matchesAt, Bool.and_eq_true] at h
  exact h.2

theorem getElem?_of_matchesAt (h : g.matchesAt wordChars t p = true) {i : Nat} (hi : i < g.length) :
    t[p + i]? = g.chars[i]? := by
  simp only [matchesAt, Bool.and_eq_true] at h
  exact Text.getElem?_of_occursAt h.1.1 hi

theorem mem_chars_of_matchesAt (h : g.matchesAt wordChars t p = true) {o : Nat}
    {ch : Char} (hp : p ≤ o) (ho : o < p + g.length) (hget : t[o]? = some ch) : ch ∈ g.chars := by
  have hchar := getElem?_of_matchesAt h (show o - p < g.length by omega)
  rw [show p + (o - p) = o by omega, hget] at hchar
  exact List.mem_of_getElem? hchar.symm

/-- A match of letters over part of a word that goes on neither way is the word. -/
theorem chars_eq_of_overlap {w s : List Char}
    (hmatch : g.matchesAt wordChars (Text.begun w s) p = true)
    (hletters : ∀ ch ∈ g.chars, Unicode.isAlphanumeric ch = true)
    (hbefore : g.before = .ofChar wordChars g.first)
    (hafter : g.after = .ofChar wordChars (g.chars.getLast g.chars_ne_nil))
    (hw : ∀ ch ∈ w, Unicode.isAlphanumeric ch = true)
    (hs : ∀ ch, s.head? = some ch → Unicode.isAlphanumeric ch = false) (hp : p < w.length) :
    g.chars = w := by
  have hleft : p = 0 ∨ Edge.word.admits wordChars (Text.begun w s)[p - 1]? = true := by
    rw [← ofChar_of_isAlphanumeric (hletters g.first (List.mem_cons_self ..)), ← hbefore]
    exact admits_before hmatch
  have hright : Edge.word.admits wordChars (Text.begun w s)[p + g.length]? = true := by
    rw [← ofChar_of_isAlphanumeric (hletters _ (List.getLast_mem g.chars_ne_nil)), ← hafter]
    exact admits_after hmatch
  have hin : ∀ {i : Nat}, i < w.length → ∃ ch, (Text.begun w s)[i]? = some ch ∧
      Unicode.isAlphanumeric ch = true :=
    fun {i} hi => ⟨w[i], Text.getElem?_begun_of_lt s hi, hw _ (List.getElem_mem hi)⟩
  obtain rfl : p = 0 := by
    rcases hleft with hzero | hleft
    · exact hzero
    · obtain ⟨ch, hget, hch⟩ := hin (show p - 1 < w.length by omega)
      simp [not_isAlphanumeric_of_admits hleft hget] at hch
  have hge : w.length ≤ g.length := by
    by_contra hlt
    obtain ⟨ch, hget, hch⟩ := hin (show 0 + g.length < w.length by omega)
    simp [not_isAlphanumeric_of_admits hright hget] at hch
  have hle : g.length ≤ w.length := by
    by_contra hlt
    -- the match would hold the character after the word
    have hget := getElem?_of_matchesAt hmatch (show w.length < g.length by omega)
    have hlong : w.length < g.chars.length := by
      rw [← GuardedLexeme.length]
      omega
    rw [Nat.zero_add, ← Nat.add_zero w.length, Text.getElem?_begun_add,
      ← List.head?_eq_getElem?, Nat.add_zero, List.getElem?_eq_getElem hlong] at hget
    exact absurd (hletters _ (List.getElem_mem hlong)) (by simp [hs _ hget])
  have hslice := slice_of_matchesAt hmatch
  rw [Nat.zero_add, Nat.le_antisymm hle hge] at hslice
  rw [← hslice, Text.slice_begun]

end GuardedLexeme

def EndsBefore (wordChars : List Char) (w : String) (s : List Char) : Prop :=
  ∀ last, w.toList.getLast? = some last →
    (Edge.ofChar wordChars last).admits wordChars s.head? = true

/-- Only its own table matches over a lexeme that begins a text and ends there. -/
theorem Dialect.Parted.eq_of_overlap {d : Dialect} (hd : d.Parted) {T T' : LexemeTable}
    (hT : T ∈ d.tables)
    (hT' : T' ∈ d.tables) {w wordChars : String} (hw : w ∈ T.lexemes) {s : List Char}
    (hs : EndsBefore wordChars.toList w s) {g : GuardedLexeme}
    (hg : g ∈ (T'.pattern wordChars).alternatives)
    {p o : Nat} (hmatch : g.matchesAt wordChars.toList (Text.begun w.toList s) p = true)
    (hp : p ≤ o) (ho : o < p + g.length) (how : o < w.toList.length) : T' = T := by
  obtain ⟨w', hw', hword⟩ := LexemeTable.mem_alternatives.1 hg
  obtain ⟨hchars, hbefore, hafter⟩ := GuardedLexeme.ofWord?_eq_some.1 hword
  have hmem : w.toList[o] ∈ w.toList := List.getElem_mem how
  have hmem' : w.toList[o] ∈ w'.toList := by
    rw [← hchars]
    exact GuardedLexeme.mem_chars_of_matchesAt hmatch hp ho (Text.getElem?_begun_of_lt s how)
  cases hletter : Unicode.isAlphanumeric w.toList[o] with
  | false =>
    obtain ⟨S, hS⟩ := hd.signs
    exact (hS T' hT' w' hw' _ hmem' hletter).trans (hS T hT w hw _ hmem hletter).symm
  | true =>
    have hall : ∀ {U : LexemeTable} {v : String}, U ∈ d.tables → v ∈ U.lexemes →
        w.toList[o] ∈ v.toList → ∀ ch ∈ v.toList, Unicode.isAlphanumeric ch = true := by
      intro U v hU hv hin
      rcases hd.unmixed U hU v hv with hletters | hnone
      · exact hletters
      · simp [hnone _ hin] at hletter
    have hlast : w.toList.getLast? = some (w.toList.getLast (List.ne_nil_of_mem hmem)) :=
      List.getLast?_eq_some_getLast _
    have hend := hs _ hlast
    rw [ofChar_of_isAlphanumeric (hall hT hw hmem _ (List.getLast_mem _))] at hend
    have heq := GuardedLexeme.chars_eq_of_overlap hmatch
      (by rw [hchars]; exact hall hT' hw' hmem') hbefore hafter
      (hall hT hw hmem) (fun ch hch => not_isAlphanumeric_of_admits hend hch) (by omega)
    have hsame : w' = w := String.toList_inj.1 (hchars.symm.trans heq)
    exact hd.alone T' hT' T hT w (hsame ▸ hw') hw

namespace Mode

variable {m : Mode} {c : Conventions} {T : LexemeTable} {w : String} {s : List Char}

def Quiet (m : Mode) (w : String) : Prop :=
  ∀ ch ∈ w.toList, m.commentStart.toList.head? ≠ some ch ∧ m.stringDelimiter.toList.head? ≠ some ch

theorem Reads.covers_eq_false (hr : m.Reads c) (hq : m.Quiet w) {o n : Nat}
    (ho : o < w.toList.length) {g : Region}
    (hg : g ∈ c.regions (Text.begun w.toList s) 0 n) : g.span.covers o = false := by
  by_contra hcov
  obtain ⟨hle, -⟩ := Classification.span_covers_iff.1 (Bool.not_eq_false _ ▸ hcov)
  obtain ⟨hstart, -, -, hopen⟩ :=
    Conventions.mem_openings hr.advances (Conventions.mem_regions.1 hg)
  have hfirst : (Opening.region g).first < w.toList.length := by
    simp only [Opening.first]
    omega
  have htrigger : c.TriggerAt (Text.begun w.toList s) (Opening.region g).first := by
    by_contra hno
    simp [Conventions.openAt_eq_none_iff.2 hno] at hopen
  have hget := Text.getElem?_begun_of_lt s hfirst
  obtain ⟨hcomment, hdelimiter⟩ := hq _ (List.getElem_mem hfirst)
  rcases htrigger with hat | hat
  · cases hc : c.comment with
    | nil => exact hr.advances.comment_ne_nil hc
    | cons ch rest =>
      have hat := Text.getElem?_of_occursAt hat (show 0 < c.comment.length by simp [hc])
      rw [Nat.add_zero, hget, hr.comment, ← List.head?_eq_getElem?] at hat
      exact hcomment hat.symm
  · rw [Conventions.occursAt_delimiter hat] at hget
    rw [← hr.delimiter, Conventions.delimiter, List.head?_cons, hget] at hdelimiter
    exact hdelimiter rfl

theorem Reads.classAt_word (hr : m.Reads c) (hq : m.Quiet w) {o : Nat} (ho : o < w.toList.length) :
    (Classification.ofRange m.compiled c (Text.begun w.toList s) 0
      (Text.begun w.toList s).size).classAt o =
      (m.claimant (Text.begun w.toList s) 0 (Text.begun w.toList s).size o).map (·.cls) := by
  have hsize := Text.lt_size_begun s ho
  have hcomp := hr.composited_ofRange (Nat.zero_le (Text.begun w.toList s).size) (Nat.le_refl _)
  exact hcomp.table o ⟨Int.natCast_nonneg o, Int.ofNat_lt.2 hsize⟩
    fun g hg => hr.covers_eq_false hq ho hg

theorem Reads.classAt_of_endsBefore (hr : m.Reads c) (hd : m.dialect.Parted)
    (hT : T ∈ m.dialect.tables)
    (hw : w ∈ T.lexemes) (hq : m.Quiet w) (hs : EndsBefore m.wordChars.toList w s) {o : Nat}
    (ho : o < w.toList.length) :
    (Classification.ofRange m.compiled c (Text.begun w.toList s) 0
      (Text.begun w.toList s).size).classAt o = some T.cls := by
  obtain ⟨g, hg⟩ : ∃ g, GuardedLexeme.ofWord? m.wordChars.toList w = some g :=
    GuardedLexeme.exists_ofWord? (List.ne_nil_of_length_pos (Nat.zero_lt_of_lt ho))
  obtain ⟨hchars, -, hafter⟩ := GuardedLexeme.ofWord?_eq_some.1 hg
  have hmatch : g.matchesAt m.wordChars.toList (Text.begun w.toList s) 0 = true := by
    rw [← hchars]
    refine GuardedLexeme.matchesAt_lead ?_
    rw [hafter]
    exact hs _ (by rw [← hchars]; exact List.getLast?_eq_some_getLast _)
  have hclaims : (T.compile m.wordChars).claims (Text.begun w.toList s) 0
      (Text.begun w.toList s).size o = true := by
    refine CompiledTable.claims_of_matchesAt_zero hw hg hmatch ?_
      (Nat.zero_lt_of_lt (Text.lt_size_begun s ho))
    rwa [GuardedLexeme.length, hchars]
  have honly :
      ∀ C ∈ m.compiled, C.claims (Text.begun w.toList s) 0 (Text.begun w.toList s).size o = true →
      C = T.compile m.wordChars := by
    intro C hC hclaims'
    obtain ⟨T', hT', rfl⟩ := List.mem_map.1 hC
    obtain ⟨hit, hhit, hl, hu⟩ := CompiledTable.claims_iff.1 hclaims'
    obtain ⟨-, -, -, g', hg', hmatch', hend⟩ := Pattern.mem_hits hhit
    rw [hd.eq_of_overlap hT hT' hw hs hg' hmatch' (by omega) (by omega) ho]
  rw [hr.classAt_word hq ho, claimant_eq_some (List.mem_map_of_mem hT) hclaims honly]
  rfl

/-- Before a long row of a character that goes on with it, the end of a word is no part of any
lexeme. -/
theorem Reads.classAt_of_continued (hr : m.Reads c) (hq : m.Quiet w) {n : Nat}
    (hn : ∀ T ∈ m.dialect.tables, ∀ v ∈ T.lexemes, v.length ≤ n) {last ch : Char}
    (hlast : w.toList.getLast? = some last)
    (hbars : (Edge.ofChar m.wordChars.toList last).bars m.wordChars.toList ch = true) :
    (Classification.ofRange m.compiled c (Text.begun w.toList (List.replicate (n + 1) ch)) 0
      (Text.begun w.toList (List.replicate (n + 1) ch)).size).classAt
        (w.toList.length - 1 : Nat) = none := by
  have hpos : 0 < w.toList.length := List.length_pos_iff.2 fun hnil => by simp [hnil] at hlast
  have hfree : Edge.ofChar m.wordChars.toList last ≠ .free :=
    fun hfree => by simp [hfree, Edge.bars] at hbars
  have hsame := (Edge.bars_iff hfree).1 hbars
  rw [hr.classAt_word hq (by omega), Option.map_eq_none_iff, claimant, List.getLast?_eq_none_iff,
    List.filter_eq_nil_iff]
  intro C hC hclaims
  obtain ⟨T, hT, rfl⟩ := List.mem_map.1 hC
  obtain ⟨hit, hhit, hl, hu⟩ := CompiledTable.claims_iff.1 hclaims
  obtain ⟨-, -, -, g, hg, hmatch, hend⟩ := Pattern.mem_hits hhit
  obtain ⟨v, hv, hword⟩ := LexemeTable.mem_alternatives.1 hg
  have hlen : g.length ≤ n := (LexemeTable.length_of_ofWord? hword).trans_le (hn T hT v hv)
  have hgpos := g.length_pos
  -- the match ends in the word's last character or in the one of the row, and the row goes on with
  -- both
  have hrow : ∀ i, i < n + 1 →
      (Text.begun w.toList (List.replicate (n + 1) ch))[w.toList.length + i]? = some ch := by
    intro i hi
    rw [Text.getElem?_begun_add, List.getElem?_replicate, if_pos hi]
  have hget := GuardedLexeme.getElem?_of_matchesAt hmatch (show g.length - 1 < g.length by omega)
  rw [GuardedLexeme.length, ← List.getLast?_eq_getElem?,
    List.getLast?_eq_some_getLast g.chars_ne_nil, ← GuardedLexeme.length] at hget
  have hkind : Edge.ofChar m.wordChars.toList (g.chars.getLast g.chars_ne_nil) =
      Edge.ofChar m.wordChars.toList last := by
    by_cases hin : hit.1 + (g.length - 1) < w.toList.length
    · rw [show hit.1 + (g.length - 1) = w.toList.length - 1 by omega,
        Text.getElem?_begun_of_lt _ (by omega), ← List.getElem?_eq_getElem,
        ← List.getLast?_eq_getElem?, hlast, Option.some.injEq] at hget
      rw [hget]
    · rw [show hit.1 + (g.length - 1) =
        w.toList.length + (hit.1 + (g.length - 1) - w.toList.length) by omega, hrow _ (by omega),
        Option.some.injEq] at hget
      rw [← hget, hsame]
  have hadmits := GuardedLexeme.admits_after hmatch
  rw [show hit.1 + g.length = w.toList.length + (hit.1 + g.length - w.toList.length) by omega,
    hrow _ (by omega), (GuardedLexeme.ofWord?_eq_some.1 hword).2.2, hkind] at hadmits
  simp [LexemeTable.compile, LexemeTable.pattern, Edge.admits, hbars] at hadmits

/-- Before a comment each character of the word has the class that it has with a blank between them,
whatever the comment says. -/
def TouchesAlike (m : Mode) (w : String) : Prop :=
  ∀ rest : List Char, ∃ r r',
    m.classify (.begun w.toList (m.commentStart.toList ++ rest)) 0 none = some r ∧
    m.classify (.begun w.toList (' ' :: m.commentStart.toList ++ rest)) 0 none = some r' ∧
    ∀ o : Nat, o < w.length → r.classAt o = r'.classAt o

theorem touchesAlike_iff_of_parted (hm : m.Scannable) (hd : m.dialect.Parted) {n : Nat}
    (hn : ∀ T ∈ m.dialect.tables, ∀ v ∈ T.lexemes, v.length ≤ n) (hblank : ' ' ∉ m.wordChars.toList)
    {ch : Char} (hch : m.commentStart.toList = [ch]) (hT : T ∈ m.dialect.tables)
    (hw : w ∈ T.lexemes) (hq : m.Quiet w) {last : Char} (hlast : w.toList.getLast? = some last) :
    m.TouchesAlike w ↔
      Edge.ofChar m.wordChars.toList ch = .free ∨
        Edge.ofChar m.wordChars.toList ch ≠ Edge.ofChar m.wordChars.toList last := by
  obtain ⟨c, hr⟩ := hm.exists_reads
  have hspaced : ∀ rest : List Char, EndsBefore m.wordChars.toList w (' ' :: rest) := by
    intro rest x _
    have hfree := Edge.ofChar_blank hblank
    simp [Edge.admits, Edge.bars_eq_false_iff, hfree]
  rw [← Edge.bars_eq_false_iff]
  constructor
  · intro h
    by_contra hbars
    obtain ⟨r, r', hr1, hr2, hsame⟩ := h (List.replicate n ch)
    have hpos : 0 < w.toList.length := List.length_pos_iff.2 fun hnil => by simp [hnil] at hlast
    rw [hch, List.singleton_append, ← List.replicate_succ] at hr1
    rw [hr.classify_whole, Option.some.injEq] at hr1 hr2
    have hnone := hr.classAt_of_continued hq hn hlast (by simpa using hbars)
    have hsome :=
      hr.classAt_of_endsBefore hd hT hw hq (hspaced (m.commentStart.toList ++ List.replicate n ch))
      (show w.toList.length - 1 < w.toList.length by omega)
    have heq := hsame (w.toList.length - 1) (by rw [← String.length_toList]; omega)
    rw [← hr1, ← hr2, hnone, List.cons_append, hsome] at heq
    simp at heq
  · intro hbars rest
    refine ⟨_, _, hr.classify_whole _, hr.classify_whole _, fun o ho => ?_⟩
    rw [← String.length_toList] at ho
    have htouching : EndsBefore m.wordChars.toList w (m.commentStart.toList ++ rest) := by
      intro x hx
      rw [hlast, Option.some.injEq] at hx
      subst hx
      simp [hch, Edge.admits, hbars]
    rw [hr.classAt_of_endsBefore hd hT hw hq htouching ho, List.cons_append,
      hr.classAt_of_endsBefore hd hT hw hq (hspaced _) ho]

end Mode

namespace Config

def NoWords (config : Toml.Entries) : Prop :=
  wordSection config "tables" = .ok [] ∧ wordSection config "extend" = .ok []

theorem dialect_of_noWords {config : Toml.Entries} {base m : Mode} (h : mode config base = .ok m)
    (hw : NoWords config) : m.dialect = base.dialect := by
  obtain ⟨⟨d, touched⟩, hdialect, h⟩ := bind_eq_ok_iff.1 h
  obtain ⟨entries, -, h⟩ := bind_eq_ok_iff.1 h
  obtain ⟨s, -, h⟩ := bind_eq_ok_iff.1 h
  obtain rfl := Except.ok.inj h
  have hsame : dialect config base.dialect = .ok (base.dialect, false) := by
    simp [dialect, hw.1, hw.2, bind, Except.bind, pure, Except.pure]
  obtain ⟨rfl, rfl⟩ := Prod.mk.inj (Except.ok.inj (hsame.symm.trans hdialect))
  rfl

/-- In a mode that comes of a configuration without words, a lexeme is read before a comment as it
is before a blank exactly if the comment character, which is no line end, would not go on with what
stands at the lexeme's end. -/
theorem touchesAlike_mode_iff {config : Toml.Entries} {m : Mode}
    (h : mode config Mode.orson = .ok m)
    (hwords : NoWords config) (hblank : ' ' ∉ m.wordChars.toList) :
    ∃ ch, m.commentStart.toList = [ch] ∧ (isLineEnd ch = false →
      ∀ T ∈ m.dialect.tables, ∀ w ∈ T.lexemes, m.Quiet w → ∃ last, w.toList.getLast? = some last ∧
        (m.TouchesAlike w ↔ Edge.ofChar m.wordChars.toList ch = .free ∨
          Edge.ofChar m.wordChars.toList ch ≠ Edge.ofChar m.wordChars.toList last)) := by
  obtain ⟨entries, -, hs⟩ := accepted_of_mode h
  obtain ⟨ch, hch⟩ : ∃ ch, m.commentStart.toList = [ch] := hs.exists_char
  have hdialect : m.dialect = Dialect.orson := dialect_of_noWords h hwords
  refine ⟨ch, hch, fun hline T hT w hw hq => ?_⟩
  have hlen := Dialect.length_lexeme_orson T (hdialect ▸ hT) w hw
  have hne : w.toList ≠ [] := List.ne_nil_of_length_pos (String.length_toList ▸ hlen.1)
  refine ⟨_, List.getLast?_eq_some_getLast hne, ?_⟩
  exact Mode.touchesAlike_iff_of_parted
    ((Mode.scannable_iff_isLineEnd hs.stringDelimiter_ne hch).2 hline)
    (hdialect ▸ Dialect.parted_orson)
    (fun T' hT' v hv => (Dialect.length_lexeme_orson T' (hdialect ▸ hT') v hv).2)
    hblank hch hT hw hq (List.getLast?_eq_some_getLast hne)

theorem touchesAlike_mode_iff_hash :
    ∃ m, mode [("mode", .table [("comment_start", .string "#")])] Mode.orson = .ok m ∧
      NoWords [("mode", .table [("comment_start", .string "#")])] ∧ ' ' ∉ m.wordChars.toList ∧
      m.TouchesAlike "if" ∧ ¬ m.TouchesAlike "+" := by
  have hmode : mode [("mode", .table [("comment_start", .string "#")])] Mode.orson =
      .ok { Mode.orson with commentStart := "#" } := rfl
  have hblank : ' ' ∉ ({ Mode.orson with commentStart := "#" } : Mode).wordChars.toList := by decide
  obtain ⟨ch, hch, hiff⟩ := touchesAlike_mode_iff hmode ⟨rfl, rfl⟩ hblank
  obtain rfl : '#' = ch := by simpa using hch
  obtain ⟨last, hlast, hif⟩ :=
    hiff rfl (Dialect.orson.table .clauseKeywords) (by decide +kernel) "if"
    (by decide +kernel) (by simp [Mode.Quiet]; decide)
  obtain ⟨last', hlast', hplus⟩ := hiff rfl (Dialect.orson.table .operators) (by decide +kernel) "+"
    (by decide +kernel) (by simp [Mode.Quiet]; decide)
  obtain rfl : 'f' = last := by simpa using hlast
  obtain rfl : '+' = last' := by simpa using hlast'
  refine ⟨_, hmode, ⟨rfl, rfl⟩, hblank, hif.2 (by decide +kernel), fun h => ?_⟩
  exact absurd (hplus.1 h) (by decide +kernel)

/-- The number sign is accepted as the comment character although it is a symbol, and an operator
loses its class before such a comment. -/
theorem not_touchesAlike_mode_hash :
    ∃ m r r', mode [("mode", .table [("comment_start", .string "#")])] Mode.orson = .ok m ∧
      NoWords [("mode", .table [("comment_start", .string "#")])] ∧ ' ' ∉ m.wordChars.toList ∧
      "+" ∈ (m.dialect.table .operators).lexemes ∧ m.Quiet "+" ∧
      m.classify (Text.ofString "+#") 0 none = some r ∧ r.classAt 0 = none ∧
      m.classify (Text.ofString "+ #") 0 none = some r' ∧ r'.classAt 0 = some .operator ∧
      ¬ m.TouchesAlike "+" := by
  have htouching :
      ({ Mode.orson with commentStart := "#" } : Mode).classify (Text.ofString "+#") 0 none =
      some ⟨0, 2, [⟨1, 2, .comment⟩], [⟨.comment, 1, 2, true⟩], []⟩ := by decide +kernel
  have hspaced :
      ({ Mode.orson with commentStart := "#" } : Mode).classify (Text.ofString "+ #") 0 none =
      some ⟨0, 3, [⟨0, 1, .operator⟩, ⟨2, 3, .comment⟩], [⟨.comment, 2, 3, true⟩], []⟩ := by
      decide +kernel
  refine ⟨{ Mode.orson with commentStart := "#" }, _, _, rfl,
    ⟨rfl, rfl⟩, by decide, by decide +kernel, by simp [Mode.Quiet]; decide, htouching, rfl,
    hspaced, rfl, fun h => ?_⟩
  obtain ⟨r, r', hr, hr', hsame⟩ := h []
  obtain rfl := Option.some.inj (htouching.symm.trans hr)
  obtain rfl := Option.some.inj (hspaced.symm.trans hr')
  exact absurd (hsame 0 (by decide)) (by decide)

end Config

end OrsonHighlight
