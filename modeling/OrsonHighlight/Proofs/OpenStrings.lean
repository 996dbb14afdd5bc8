import OrsonHighlight.Editor.Session
import OrsonHighlight.Proofs.FenceOrder
import OrsonHighlight.Proofs.LineNumbers

set_option autoImplicit false

namespace OrsonHighlight

namespace Conventions

variable {c : Conventions} {t : Text} {a b : Nat}

/-- Only the last region of a scan can be left open. -/
theorem filter_isOpenString (hc : c.Advances) (t : Text) (a b : Nat) :
    (c.regions t a b).filter (·.isOpenString) =
      ((c.regions t a b).getLast?.filter (·.isOpenString)).toList := by
  cases hlast : (c.regions t a b).getLast? with
  | none => simp [List.getLast?_eq_none_iff.1 hlast]
  | some g =>
    obtain ⟨before, hsplit⟩ := List.getLast?_eq_some_iff.1 hlast
    have hclosed : before.filter (·.isOpenString) = [] := by
      refine List.filter_eq_nil_iff.2 fun g' hg' hopen => ?_
      have hmem : g' ∈ c.regions t a b := by simp [hsplit, hg']
      have hsame : g = g' :=
        Option.some.inj (hlast.symm.trans (getLast?_of_isOpenString hc hmem hopen))
      have hpair := pairwise_regions hc t a b
      rw [hsplit] at hpair
      have hle := (List.pairwise_append.1 hpair).2.2 g' hg' g (List.mem_singleton_self g)
      have hlt := (bounds_of_mem hc hmem).2.2.1
      rw [hsame] at hle
      omega
    rw [hsplit, List.filter_append, hclosed, List.nil_append]
    cases hopen : g.isOpenString with
    | true => simp [Option.filter, hopen]
    | false => simp [Option.filter, hopen]

theorem stop_le_opening_of_last (hc : c.Advances) {g g' : Region}
    (hlast : (c.regions t a b).getLast? = some g)
    (hg' : g' ∈ c.regions t a b) (hne : g' ≠ g) : g'.stop ≤ g.opening := by
  obtain ⟨before, hsplit⟩ := List.getLast?_eq_some_iff.1 hlast
  have hpair := pairwise_regions hc t a b
  rw [hsplit] at hpair hg'
  rcases List.mem_append.1 hg' with hmem | hmem
  · exact (List.pairwise_append.1 hpair).2.2 g' hmem g (List.mem_singleton_self g)
  · exact absurd (List.mem_singleton.1 hmem) hne

end Conventions

namespace Editor

def Diagnostic.offset (t : Text) (d : Diagnostic) : Nat :=
  (LineIndex.ofText t).offset (d.startLine + 1) (d.startColumn + 1)

/-- A string that opens at `p` and goes on to the end of the text, where nothing closes it. -/
structure LeftOpen (m : Mode) (t : Text) (r : Classification) (p : Nat) : Prop where
  delimiter : t.occursAt p m.stringDelimiter.toList = true
  no_quote : ∀ i, p + m.stringDelimiter.length ≤ i → i < t.size →
    t[i]? ≠ m.stringDelimiter.toList.head?
  classes : ∀ o : Nat, p ≤ o → o < t.size → r.classAt o = some .string
  opening : r.fenceAt p = some .opening
  no_closing : ∀ o : Int, p < o → r.fenceAt o ≠ some .closing

/-- At most one warning, and one exactly if the last region is a string left open; without one every
opening fence has its closing fence right after it. -/
structure Warned (m : Mode) (t : Text) (r : Classification) (ds : List Diagnostic) : Prop where
  length_le : ds.length ≤ 1
  length_eq_one_iff : ds.length = 1 ↔ ∃ g, r.regions.getLast? = some g ∧ g.isOpenString = true
  leftOpen : ∀ d ∈ ds, LeftOpen m t r (d.offset t)
  closed : ds = [] → ∀ o, r.fenceAt o = some .opening → ∃ before after close,
    ⟨.string, o, close, true⟩ ∈ r.regions ∧
    r.fences = before ++ (o, .opening) :: (close, .closing) :: after

theorem offset_openStringWarning (m : Mode) {t : Text} {r : Region} {p : Nat} (hp : r.opening = p)
    (hn : p ≤ t.size) :
    (openStringWarning m (LineIndex.ofText t) r).offset t = p := by
  have hback := LineIndex.offset_position hn
  rw [LineIndex.position_ofText (Int.ofNat_le.2 hn)] at hback
  simp only [Diagnostic.offset, openStringWarning, hp,
    LineIndex.position_ofText (Int.ofNat_le.2 hn), Nat.add_sub_cancel]
  exact hback

section Whole

variable {m : Mode} {c : Conventions} {t : Text}

theorem diagnostics_eq (hr : m.Reads c) : diagnostics m t (.ofRange m.compiled c t 0 t.size) =
    (((c.regions t 0 t.size).getLast?.filter (·.isOpenString)).map
      (openStringWarning m (LineIndex.ofText t))).toList := by
  have hfilter := Conventions.filter_isOpenString hr.advances t 0 t.size
  rw [diagnostics, Classification.ofRange]
  dsimp only
  rw [hfilter, Option.toList_map]

theorem leftOpen_of_last (hr : m.Reads c) {g : Region}
    (hlast : (c.regions t 0 t.size).getLast? = some g) (hopen : g.isOpenString = true) :
    ∃ p : Nat, g.opening = p ∧ p ≤ t.size ∧ LeftOpen m t (.ofRange m.compiled c t 0 t.size) p := by
  have hc := hr.advances
  have hmem : g ∈ c.regions t 0 t.size := List.mem_of_getLast? hlast
  have hfenced : (Classification.ofRange m.compiled c t 0 t.size).Fenced :=
    Classification.fenced_ofRange hc m.distinctClasses_compiled (Nat.le_refl _)
  have hcomp := hr.composited_ofRange (t := t) (Nat.zero_le t.size) (Nat.le_refl _)
  have hwidth : m.stringDelimiter.length = c.width := by
    rw [← String.length_toList, ← hr.delimiter]
    rfl
  cases Conventions.isRegion_of_mem hc hmem with
  | comment => simp [Region.isOpenString] at hopen
  | closed => simp [Region.isOpenString] at hopen
  | @unclosed p hs hfree =>
    have hsize := Conventions.add_width_le_size hs.1
    refine ⟨p, rfl, by omega, hr.delimiter ▸ hs.1, fun i hi hin => ?_, fun o hpo hon => ?_,
      (hfenced.opening p).2 ⟨_, hmem, rfl, rfl⟩, fun o hpo hclosing => ?_⟩
    · rw [← hr.delimiter]
      exact hfree i (by omega) hin
    · exact hcomp.region o ⟨Int.natCast_nonneg o, Int.ofNat_lt.2 hon⟩ _ hmem
        (Classification.span_covers_iff.2 ⟨Int.ofNat_le.2 hpo, Int.ofNat_lt.2 hon⟩)
    · -- the string of a closing fence is another one, so it ends where this one opens or before
      obtain ⟨g', hg', hterm, rfl, -⟩ := (hfenced.closing o).1 hclosing
      have hne : g' ≠ ⟨.string, p, t.size, false⟩ := by
        rintro rfl
        simp [Region.isTerminatedString] at hterm
      have hle := Conventions.stop_le_opening_of_last hc hlast hg' hne
      rw [Region.stop, if_pos hterm] at hle
      dsimp only at hle
      omega

theorem closing_follows (hr : m.Reads c)
    (hno : ∀ g ∈ c.regions t 0 t.size, g.isOpenString = false) {o : Int}
    (ho : (Classification.ofRange m.compiled c t 0 t.size).fenceAt o = some .opening) :
    ∃ before after close, ⟨.string, o, close, true⟩ ∈ c.regions t 0 t.size ∧
      (Classification.ofRange m.compiled c t 0 t.size).fences =
        before ++ (o, .opening) :: (close, .closing) :: after := by
  have hc := hr.advances
  have hfenced : (Classification.ofRange m.compiled c t 0 t.size).Fenced :=
    Classification.fenced_ofRange hc m.distinctClasses_compiled (Nat.le_refl _)
  obtain ⟨⟨kind, opening, closing, terminated⟩, hg, hk, rfl⟩ := (hfenced.opening o).1 ho
  have hclosed := hno _ hg
  dsimp only at hk
  subst hk
  obtain rfl : terminated = true := by simpa [Region.isOpenString] using hclosed
  have hstop := (Conventions.bounds_of_mem hc hg).2.2.2
  have hbefore : Region.ClosesBefore t.size ⟨.string, opening, closing, true⟩ :=
    ⟨rfl, by simp [Region.stop, Region.isTerminatedString] at hstop; dsimp only; omega⟩
  obtain ⟨before, after, hsplit, hhead⟩ := hfenced.paired _ hg rfl
  obtain ⟨after, rfl⟩ := List.head?_eq_some_iff.1 ((if_pos hbefore).mp hhead)
  exact ⟨before, after, closing, hg, hsplit⟩

theorem warned_diagnostics (hr : m.Reads c) (t : Text) :
    Warned m t (.ofRange m.compiled c t 0 t.size)
      (diagnostics m t (.ofRange m.compiled c t 0 t.size)) := by
  rw [diagnostics_eq hr]
  cases hlast : (c.regions t 0 t.size).getLast?.filter (·.isOpenString) with
  | none =>
    have hno : ∀ g ∈ c.regions t 0 t.size, g.isOpenString = false := by
      have hnil := Conventions.filter_isOpenString hr.advances t 0 t.size
      rw [hlast, Option.toList_none, List.filter_eq_nil_iff] at hnil
      exact fun g hg => by simpa using hnil g hg
    refine ⟨by simp, ?_, by simp, fun _ o ho => closing_follows hr hno ho⟩
    simp only [Option.map_none, Option.toList_none, List.length_nil, Nat.zero_ne_one, false_iff]
    rintro ⟨g, hg, hopen⟩
    simp [hno g (List.mem_of_getLast? hg)] at hopen
  | some g =>
    obtain ⟨hg, hopen⟩ := Option.filter_eq_some_iff.1 hlast
    obtain ⟨p, hp, hn, hleft⟩ := leftOpen_of_last hr hg hopen
    refine ⟨by simp, by simpa using ⟨g, hg, hopen⟩, fun d hd => ?_, by simp⟩
    obtain rfl : d = openStringWarning m (LineIndex.ofText t) g := by simpa using hd
    rw [offset_openStringWarning m hp hn]
    exact hleft

end Whole

theorem Session.put_fst (s : Session) (uri : String) (t : Text) :
    (s.put uri t).1 = ((modeFor s.registry uri).classify t 0 none).map
      fun r => ⟨uri, diagnostics (modeFor s.registry uri) t r⟩ := by
  rw [Session.put]
  dsimp only
  rw [Journal.classify_fst]
  cases (modeFor s.registry uri).classify t 0 none <;> rfl

/-- A document that is opened or changed has its warnings told once, under its own name. -/
theorem Session.put_warned (s : Session) (uri : String) (t : Text)
    (hm : (modeFor s.registry uri).Scannable) :
    ∃ r ds, (modeFor s.registry uri).classify t 0 none = some r ∧
      (modeFor s.registry uri).conventions?.map (·.scan t 0 none) = some r.regions ∧
      (s.put uri t).1 = some ⟨uri, ds⟩ ∧ Warned (modeFor s.registry uri) t r ds := by
  obtain ⟨c, hr⟩ := hm.exists_reads
  refine ⟨_, _, hr.classify_whole t, ?_, ?_, warned_diagnostics hr t⟩
  · rw [hr.conventions, Option.map_some, Conventions.scan_eq_regions]
    rfl
  · rw [Session.put_fst, hr.classify_whole]
    rfl

theorem Session.put_warned_second_line :
    (modeFor Session.start.registry "w/a.op").Scannable ∧
      ∃ r, (modeFor Session.start.registry "w/a.op").classify
        (Text.ofString "''a''\n x ''b") 0 none = some r ∧
        (Session.start.put "w/a.op" (Text.ofString "''a''\n x ''b")).1 =
          some ⟨"w/a.op", [⟨1, 3, 1, 5, "unterminated string literal", 2, "orsonlex"⟩]⟩ ∧
        LeftOpen (modeFor Session.start.registry "w/a.op") (Text.ofString "''a''\n x ''b") r 9 := by
  have hm : modeFor Session.start.registry "w/a.op" = Mode.orson := by decide +kernel
  have hscan := hm.symm ▸ Mode.scannable_orson
  obtain ⟨r, ds, hr, -, hput, hwarned⟩ :=
    Session.put_warned Session.start "w/a.op" (Text.ofString "''a''\n x ''b") hscan
  have hvalue : (Session.start.put "w/a.op" (Text.ofString "''a''\n x ''b")).1 =
      some ⟨"w/a.op", [⟨1, 3, 1, 5, "unterminated string literal", 2, "orsonlex"⟩]⟩ := by
      decide +kernel
  obtain rfl : ds = [⟨1, 3, 1, 5, "unterminated string literal", 2, "orsonlex"⟩] :=
    congrArg Notification.diagnostics (Option.some.inj (hput.symm.trans hvalue))
  have hoffset : Diagnostic.offset (Text.ofString "''a''\n x ''b")
      ⟨1, 3, 1, 5, "unterminated string literal", 2, "orsonlex"⟩ = 9 := by decide +kernel
  exact ⟨hscan, r, hr, hput, hoffset ▸ hwarned.leftOpen _ (List.mem_singleton_self _)⟩

end Editor

end OrsonHighlight
