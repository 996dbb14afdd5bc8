import OrsonHighlight.Editor.Session
import OrsonHighlight.Proofs.LinePieces
import OrsonHighlight.Proofs.Restart

/-!
The reply for a range beside the reply for the whole document. The range is read from a line start
as if nothing were under way there. That is harmless where no match, region or broken literal
crosses the line start, and wrong where a string does and goes on.
-/

set_option autoImplicit false

namespace OrsonHighlight

namespace Classification

def Joins (r : Classification) (o : Int) : Prop :=
  ∃ s ∈ r.spans, s.covers o = true ∧ s.covers (o + 1) = true

/-- Between `lo` and `hi` both have one class at each offset but line feeds, and one span goes on
from there in both or in neither. -/
structure ShowsAlike (r r' : Classification) (t : Text) (lo hi : Int) : Prop where
  cls : ∀ o, lo ≤ o → o < hi → SemanticTokens.visible t o = true → r.classAt o = r'.classAt o
  joins : ∀ o, lo ≤ o → o + 1 < hi → SemanticTokens.visible t o = true →
    SemanticTokens.visible t (o + 1) = true → (r.Joins o ↔ r'.Joins o)

variable {tables : List CompiledTable} {c : Conventions} {t : Text} {a b s e : Nat}

theorem joins_ofRange (hc : c.Advances) (ht : DistinctClasses tables) {o : Int} :
    (ofRange tables c t a b).Joins o ↔ IsRun.Joined (showing tables c t a b) o := by
  constructor
  · rintro ⟨s, hs, hcov, hcov'⟩
    obtain ⟨k, -, hr⟩ := (mem_spans_ofRange hc ht).1 hs
    have hin := Span.covers_iff.1 hcov
    have hin' := Span.covers_iff.1 hcov'
    exact ⟨k, hr.mark o hin.1 hin.2, hr.mark (o + 1) hin'.1 hin'.2⟩
  · rintro ⟨k, hk, hk'⟩
    obtain ⟨x, y, hr, hx, hy⟩ := IsRun.exists_mem (bounded_showing tables c t a b) hk
    have hy' : o + 1 < y := by
      by_contra hge
      exact hr.right (by rw [show y = o + 1 by omega]; exact hk')
    exact ⟨⟨x, y, k.2⟩, (mem_spans_ofRange hc ht).2 ⟨k, rfl, hr⟩, Span.covers_iff.2 ⟨hx, hy⟩,
      Span.covers_iff.2 ⟨by dsimp only; omega, hy'⟩⟩

theorem showsAlike_iff (hc : c.Advances) (ht : DistinctClasses tables) :
    (ofRange tables c t s e).ShowsAlike (ofRange tables c t a b) t s e ↔
      let f := IsRun.mask (SemanticTokens.visible t) (showing tables c t s e)
      let g := IsRun.mask (IsRun.between s e)
        (IsRun.mask (SemanticTokens.visible t) (showing tables c t a b))
      ∀ o, (f o).map (·.2) = (g o).map (·.2) ∧ (IsRun.Joined f o ↔ IsRun.Joined g o) := by
  have hbounded := bounded_showing tables c t s e
  simp only [IsRun.map_mask_eq_iff hbounded, IsRun.joined_mask_iff hbounded,
    ← classAt_ofRange hc ht, ← joins_ofRange hc ht]
  constructor
  · exact fun h o => ⟨h.cls o, h.joins o⟩
  · exact fun h => ⟨fun o => (h o).1, fun o => (h o).2⟩

theorem showsAlike_of_splitsAt (hc : c.Advances) (ht : DistinctClasses tables)
    (has : a ≤ s) (he : e ≤ b) (hs : SplitsAt tables c t a b s) :
    (ofRange tables c t s e).ShowsAlike (ofRange tables c t a b) t s e where
  cls o hl hu _ := by
    rw [classAt_ofRange hc ht, classAt_ofRange hc ht, showing_of_splitsAt hc has he hs hl hu]
  joins o hl hu _ _ := by
    rw [joins_ofRange hc ht, joins_ofRange hc ht, IsRun.Joined, IsRun.Joined,
      showing_of_splitsAt hc has he hs hl (by omega),
      showing_of_splitsAt hc has he hs (by omega) hu]

theorem exists_quote_of_classAt (hc : c.Advances) (ht : DistinctClasses tables) {o : Int}
    (h : (ofRange tables c t a b).classAt o = some .string) :
    ∃ i : Nat, a ≤ i ∧ (i : Int) ≤ o ∧ t[i]? = some c.quote := by
  rw [classAt_ofRange hc ht, Option.map_eq_some_iff] at h
  obtain ⟨k, hk, hcls⟩ := h
  obtain ⟨-, sp, hsp, hkey⟩ := Annotations.shown_eq_some.1 hk
  obtain ⟨hmem, hcov⟩ := Span.mem_of_lastOver hsp
  have hsc : sp.cls = .string := by rw [← hcls, ← hkey]; rfl
  -- no table has the class of strings, so the offset shows a region that opens in the range
  rcases List.mem_append.1 hmem with hmem | hmem
  · obtain ⟨T, hT, hmem⟩ := List.mem_flatMap.1 hmem
    exact absurd ((CompiledTable.cls_of_mem_scan hmem).symm.trans hsc) (ht.code T hT .string)
  · obtain ⟨r, hr, rfl⟩ := List.mem_map.1 hmem
    have hlow := (Conventions.bounds_of_mem hc hr).1
    have hin := (span_covers_iff.1 hcov).1
    cases Conventions.isRegion_of_mem hc hr with
    | comment => simp [Region.span, RegionKind.cls] at hsc
    | @closed p q hs => exact ⟨p, by simpa using hlow, hin, Conventions.occursAt_delimiter hs.1⟩
    | @unclosed p hs => exact ⟨p, by simpa using hlow, hin, Conventions.occursAt_delimiter hs.1⟩

/-- A string that goes on past the start, up to its next quote character, shows in the outer range
alone. -/
theorem not_showsAlike_of_string (hc : c.Advances) (ht : DistinctClasses tables) {g : Region}
    (hg : g ∈ c.regions t a b) (hkind : g.kind = .string) (hopen : g.opening < s)
    (he : e ≤ b) {o : Nat}
    (hso : s ≤ o) (hoe : o < e) (hstop : o < g.stop) (hv : SemanticTokens.visible t o = true)
    (hq : ∀ i, s ≤ i → i ≤ o → t[i]? ≠ some c.quote) :
    ¬ (ofRange tables c t s e).ShowsAlike (ofRange tables c t a b) t s e := by
  intro h
  have hcls := h.cls o (by omega) (by omega) hv
  have hb := Conventions.bounds_of_mem hc hg
  have hshow : showing tables c t a b o = some (g.opening, g.kind.cls) :=
    showing_of_region hc hg (by omega) (span_covers_iff.2 ⟨by omega, hstop⟩)
  rw [classAt_ofRange hc ht (a := a), hshow, Option.map_some, hkind] at hcls
  obtain ⟨i, hi, hio, hget⟩ := exists_quote_of_classAt hc ht hcls
  exact hq i hi (by omega) hget

end Classification

namespace SemanticTokens

variable {tables : List CompiledTable} {c : Conventions} {t : Text} {a b s e : Nat}

theorem clipSpan_eq_some {lo hi : Int} {p q : Span} :
    clipSpan lo hi p = some q ↔
      IsRun (IsRun.mask (IsRun.between lo hi) (IsRun.within p.start p.stop)) () q.start q.stop ∧
      p.cls = q.cls := by
  rw [IsRun.mask_between_within, IsRun.within_iff]
  obtain ⟨x, y, l⟩ := q
  unfold clipSpan
  split
  · rename_i hlt
    rw [Option.some.injEq, Span.mk.injEq]
    constructor
    · exact fun ⟨h1, h2, hcls⟩ => ⟨⟨h1.symm, h2.symm, hlt⟩, hcls⟩
    · exact fun ⟨⟨h1, h2, _⟩, hcls⟩ => ⟨h1.symm, h2.symm, hcls⟩
  · rename_i hge
    simp [hge]

theorem mem_filterMap_clipSpan (hc : c.Advances) (ht : DistinctClasses tables)
    (hb : b ≤ t.size) {lo hi : Int}
    {q : Span} : q ∈ (linePieces t (.ofRange tables c t a b)).filterMap (clipSpan lo hi) ↔
      ∃ k, k.2 = q.cls ∧ IsRun (IsRun.mask (IsRun.between lo hi) (IsRun.mask (visible t)
        (Classification.showing tables c t a b))) k q.start q.stop := by
  have hbounded := (Classification.bounded_showing tables c t a b).mask (visible t)
  simp only [List.mem_filterMap, clipSpan_eq_some]
  constructor
  · rintro ⟨p, hp, hclip, hcls⟩
    obtain ⟨k, hk, hr⟩ := (mem_linePieces hc ht hb).1 hp
    exact ⟨k, hk.trans hcls, (IsRun.mask_iff hbounded).2 ⟨p.start, p.stop, hr, hclip⟩⟩
  · rintro ⟨k, hk, hr⟩
    obtain ⟨x, y, hr', hclip⟩ := (IsRun.mask_iff hbounded).1 hr
    exact ⟨⟨x, y, k.2⟩, (mem_linePieces hc ht hb).2 ⟨k, rfl, hr'⟩, hclip, hk⟩

theorem pairwise_filterMap_clipSpan (hc : c.Advances) (ht : DistinctClasses tables)
    (hb : b ≤ t.size) (lo hi : Int) :
    ((linePieces t (.ofRange tables c t a b)).filterMap (clipSpan lo hi)).Pairwise
      fun p p' => p.start < p'.start := by
  refine List.pairwise_filterMap.2
    ((pairwise_linePieces hc ht hb).imp fun {p p'} hle q hq q' hq' => ?_)
  have hr := (clipSpan_eq_some.1 hq).1
  have hr' := (clipSpan_eq_some.1 hq').1
  rw [IsRun.mask_between_within, IsRun.within_iff] at hr hr'
  omega

theorem tokens_eq_clip_iff (hc : c.Advances) (ht : DistinctClasses tables) (he : e ≤ t.size)
    (hb : b ≤ t.size) :
    tokens t (.ofRange tables c t s e) =
        (tokens t (.ofRange tables c t a b)).filterMap (clipToken (LineIndex.ofText t) s e) ↔
      (Classification.ofRange tables c t s e).ShowsAlike (.ofRange tables c t a b) t s e := by
  have inText : ∀ {a b : Nat}, b ≤ t.size → ∀ p ∈ linePieces t (.ofRange tables c t a b),
      0 ≤ p.start ∧ p.start ≤ t.size := fun {a b} hb p hp => by
    have hin := bounds_of_mem_linePieces hc ht hb hp
    omega
  have inClip : ∀ p ∈ (linePieces t (.ofRange tables c t a b)).filterMap (clipSpan s e),
      0 ≤ p.start ∧ p.start ≤ t.size := fun p hp => by
    obtain ⟨k, -, hr⟩ := (mem_filterMap_clipSpan hc ht hb).1 hp
    have hin :=
      hr.bounds (((Classification.bounded_showing tables c t a b).mask (visible t)).mask _)
    omega
  have hpair : (linePieces t (.ofRange tables c t s e)).Pairwise fun p p' => p.start < p'.start :=
    (pairwise_linePieces hc ht he).imp_of_mem fun {p p'} hp _ hle => by
      have hin := bounds_of_mem_linePieces hc ht he hp
      omega
  rw [tokens_eq_map_linePieces, tokens_eq_map_linePieces, filterMap_clipToken (inText hb),
    map_ofPiece_inj (inText he) inClip, Classification.showsAlike_iff hc ht,
    ← IsRun.same_runs_iff ((Classification.bounded_showing tables c t s e).mask _)
      (((Classification.bounded_showing tables c t a b).mask _).mask _)]
  constructor
  · intro heq l x y
    have hmem := mem_linePieces hc ht he (t := t) (a := s) (s := ⟨x, y, l⟩)
    rw [heq, mem_filterMap_clipSpan hc ht hb] at hmem
    exact hmem.symm
  · intro h
    refine eq_of_mem_iff_of_ascending hpair (pairwise_filterMap_clipSpan hc ht hb s e) fun p => ?_
    rw [mem_linePieces hc ht he, mem_filterMap_clipSpan hc ht hb]
    exact h p.cls p.start p.stop

theorem clipToken_max (ix : LineIndex) (lo hi : Int) :
    clipToken ix lo (max lo hi) = clipToken ix lo hi := by
  funext k
  have hclip : clipSpan lo (max lo hi) (pieceOf ix k) = clipSpan lo hi (pieceOf ix k) := by
    refine Option.ext fun q => ?_
    rw [clipSpan_eq_some, clipSpan_eq_some, IsRun.mask_between_within,
      IsRun.mask_between_within, IsRun.within_iff, IsRun.within_iff]
    constructor
    · rintro ⟨⟨h1, h2, hlt⟩, hcls⟩
      exact ⟨by omega, hcls⟩
    · rintro ⟨⟨h1, h2, hlt⟩, hcls⟩
      exact ⟨by omega, hcls⟩
  rw [clipToken, clipToken, hclip]

end SemanticTokens

theorem Classification.showsAlike_max {r r' : Classification} {t : Text} {lo hi : Int} :
    r.ShowsAlike r' t lo (max lo hi) ↔ r.ShowsAlike r' t lo hi := by
  constructor
  · exact fun h => ⟨fun o hl hu => h.cls o hl (by omega), fun o hl hu => h.joins o hl (by omega)⟩
  · exact fun h => ⟨fun o hl hu => h.cls o hl (by omega), fun o hl hu => h.joins o hl (by omega)⟩

namespace Editor.Session

open SemanticTokens

/-- Both requests are answered, and the range has the tokens that the document has between its
ends. -/
def RangeAgrees (s : Session) (uri : String) (first last : Place) : Prop :=
  let t := s.document uri
  let range := requestedRange t first last
  ∃ whole part ks, (s.tokens uri).1 = some whole ∧ (s.tokensBetween uri first last).1 = some part ∧
    decode whole = some ks ∧
    decode part = some (ks.filterMap (clipToken (LineIndex.ofText t) range.1 range.2))

theorem tokens_fst (s : Session) (uri : String) :
    (s.tokens uri).1 = ((modeFor s.registry uri).classify (s.document uri) 0 none).map
      (encode (s.document uri)) := rfl

theorem tokensBetween_fst (s : Session) (uri : String) (first last : Place) :
    (s.tokensBetween uri first last).1 =
      ((modeFor s.registry uri).classify (s.document uri)
        (requestedRange (s.document uri) first last).1
        (some (requestedRange (s.document uri) first last).2)).map (encode (s.document uri)) := rfl

theorem requestedRange_le_size (t : Text) (first last : Place) :
    (requestedRange t first last).1 ≤ t.size ∧ (requestedRange t first last).2 ≤ t.size :=
  ⟨t.lineStart_le_size _, LineIndex.offset_le_size t _ _⟩

theorem rangeAgrees_iff_tokens {s : Session} {uri : String} {first last : Place}
    {whole part : Classification} (hwhole : (s.tokens uri).1 = some (encode (s.document uri) whole))
    (hpart : (s.tokensBetween uri first last).1 = some (encode (s.document uri) part)) :
    s.RangeAgrees uri first last ↔
      SemanticTokens.tokens (s.document uri) part =
        (SemanticTokens.tokens (s.document uri) whole).filterMap
          (clipToken (LineIndex.ofText (s.document uri))
            (requestedRange (s.document uri) first last).1
            (requestedRange (s.document uri) first last).2) := by
  constructor
  · rintro ⟨data, data', ks, h1, h2, hks, hclip⟩
    rw [hwhole, Option.some.injEq] at h1
    rw [hpart, Option.some.injEq] at h2
    rw [← h1, decode_encode, Option.some.injEq] at hks
    rw [← h2, decode_encode, Option.some.injEq, ← hks] at hclip
    exact hclip
  · intro hclip
    exact ⟨_, _, _, hwhole, hpart, decode_encode _ _, by rw [decode_encode, hclip]⟩

/-- Both requests are answered. The replies agree exactly if both readings show alike, and so they
do where nothing crosses the line start; they do not where a string that crosses it goes on with a
character other than its quote. -/
theorem rangeAgrees_iff (s : Session) (uri : String) (first last : Place)
    (hm : (modeFor s.registry uri).Scannable) :
    let m := modeFor s.registry uri
    let t := s.document uri
    let lo := (requestedRange t first last).1
    let hi := (requestedRange t first last).2
    ∃ whole part, m.classify t 0 none = some whole ∧ m.classify t lo (some (hi : Int)) = some part ∧
      (s.tokens uri).1 = some (encode t whole) ∧
      (s.tokensBetween uri first last).1 = some (encode t part) ∧
      (s.RangeAgrees uri first last ↔ part.ShowsAlike whole t lo hi) ∧
      (m.SplitsAt t lo → s.RangeAgrees uri first last) ∧
      (∀ g ∈ whole.regions, g.kind = .string → g.opening < lo →
      ∀ o : Nat, lo ≤ o → o < hi → o < g.stop →
        visible t o = true → (∀ i, lo ≤ i → i ≤ o → t[i]? ≠ m.stringDelimiter.toList.head?) →
          ¬ s.RangeAgrees uri first last) := by
  intro m t lo hi
  obtain ⟨c, hread⟩ := hm.exists_reads
  have hc := hread.advances
  have ht := m.distinctClasses_compiled
  obtain ⟨hlo, hhi⟩ : lo ≤ t.size ∧ hi ≤ t.size := requestedRange_le_size t first last
  have hwhole : m.classify t 0 none = some (.ofRange m.compiled c t 0 t.size) :=
    hread.classify_whole t
  have hpart : m.classify t lo (some (hi : Int)) = some (.ofRange m.compiled c t lo (max lo hi)) :=
    hread.classify_between hlo hhi
  have hmax : ((max lo hi : Nat) : Int) = max (lo : Int) hi := by omega
  have hreply : (s.tokens uri).1 = some (encode t (.ofRange m.compiled c t 0 t.size)) := by
    rw [tokens_fst, hwhole]
    rfl
  have hreply' : (s.tokensBetween uri first last).1 =
      some (encode t (.ofRange m.compiled c t lo (max lo hi))) := by
    rw [tokensBetween_fst, hpart]
    rfl
  have hiff : s.RangeAgrees uri first last ↔
      (Classification.ofRange m.compiled c t lo (max lo hi)).ShowsAlike
      (.ofRange m.compiled c t 0 t.size) t lo hi := by
    rw [← Classification.showsAlike_max, ← hmax,
      ← tokens_eq_clip_iff hc ht (by omega) (Nat.le_refl _), hmax, clipToken_max]
    exact rangeAgrees_iff_tokens hreply hreply'
  refine ⟨_, _, hwhole, hpart, hreply, hreply', hiff,
    fun hsplit => ?_, fun g hg hkind hopen o hl hu hstop hv hq => ?_⟩
  · rw [hiff, ← Classification.showsAlike_max, ← hmax]
    exact Classification.showsAlike_of_splitsAt hc ht (Nat.zero_le _) (by omega)
      (hsplit c hread.conventions)
  · rw [hiff, ← Classification.showsAlike_max, ← hmax]
    have hhead : m.stringDelimiter.toList.head? = some c.quote := by rw [← hread.delimiter]; rfl
    exact Classification.not_showsAlike_of_string hc ht hg hkind hopen (by omega) hl
      (by omega) hstop hv fun i hi hi' => hhead ▸ hq i hi hi'

theorem rangeAgrees_iff_second_line :
    (modeFor (Session.start.put "w/a.op" (Text.ofString "do\nend")).2.registry "w/a.op").Scannable ∧
      (Session.start.put "w/a.op" (Text.ofString "do\nend")).2.RangeAgrees "w/a.op"
        ⟨1, 2⟩ ⟨1, 3⟩ := by
  have hm : modeFor (Session.start.put "w/a.op" (Text.ofString "do\nend")).2.registry "w/a.op" =
      Mode.orson := by
    decide +kernel
  have hscan := hm.symm ▸ Mode.scannable_orson
  obtain ⟨-, -, -, -, -, -, -, hsplit, -⟩ :=
    rangeAgrees_iff (Session.start.put "w/a.op" (Text.ofString "do\nend")).2 "w/a.op"
      ⟨1, 2⟩ ⟨1, 3⟩ hscan
  refine ⟨hscan, hsplit fun c hc => ?_⟩
  have hconv : Mode.orson.conventions? = some ⟨['!'], '\'', ['\'']⟩ := by decide +kernel
  rw [hm, hconv, Option.some.injEq] at hc
  rw [← hc, hm]
  exact ⟨by decide +kernel, by decide +kernel⟩

/-- A line inside a string: its text is read as code, and the end of the string as a new
beginning. -/
theorem not_rangeAgrees_in_string :
    ¬ (Session.start.put "w/a.op" (Text.ofString "''a\nb'' x")).2.RangeAgrees "w/a.op"
      ⟨1, 0⟩ ⟨1, 5⟩ := by
  rintro ⟨data, data', ks, h1, h2, hks, hclip⟩
  have hwhole : ((Session.start.put "w/a.op" (Text.ofString "''a\nb'' x")).2.tokens "w/a.op").1 =
      some [0, 0, 3, 6, 0, 1, 0, 3, 6, 0] := by decide +kernel
  have hpart :
      ((Session.start.put "w/a.op" (Text.ofString "''a\nb'' x")).2.tokensBetween "w/a.op"
      ⟨1, 0⟩ ⟨1, 5⟩).1 = some [1, 1, 4, 6, 0] := by decide +kernel
  rw [hwhole, Option.some.injEq] at h1
  rw [hpart, Option.some.injEq] at h2
  rw [← h1] at hks
  rw [← h2] at hclip
  have hdecode : decode [0, 0, 3, 6, 0, 1, 0, 3, 6, 0] =
      some [⟨0, 0, 3, .string⟩, ⟨1, 0, 3, .string⟩] := by decide
  rw [hdecode, Option.some.injEq] at hks
  rw [← hks] at hclip
  exact absurd hclip (by decide +kernel)

end Editor.Session

end OrsonHighlight
