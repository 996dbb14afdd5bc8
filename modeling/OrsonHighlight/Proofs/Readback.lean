import OrsonHighlight.Path
import OrsonHighlight.Proofs.SegmentCover
import OrsonHighlight.Render.Ansi
import OrsonHighlight.Render.Html

/-!
Rendered pieces read back. A reader cuts the text at its marks, takes the class of a piece from the
label that follows a mark, and undoes the writing of its characters; it finds the pieces that were
written, whatever text they hold.
-/

set_option autoImplicit false

namespace OrsonHighlight

/-- How pieces are set off in a text. A mark, an opening and the name of its style stand before a
piece that has a class, and a mark and a closing after it. -/
structure Markup where
  mark : Char
  opening : List Char
  style : TokenClass → String
  /-- Ends the name of the style. -/
  stop : Char
  afterName : List Char
  closing : List Char
  encode : List Char → List Char
  decode? : List Char → Option (List Char)

namespace Markup

def label (k : Markup) (cls : TokenClass) : List Char :=
  k.opening ++ ((k.style cls).toList ++ k.stop :: k.afterName)

def write (k : Markup) (s : Segment) : List Char :=
  match s.cls with
  | none => k.encode s.chars
  | some cls => k.mark :: (k.label cls ++ k.encode s.chars ++ k.mark :: k.closing)

def class? (k : Markup) (name : List Char) : Option TokenClass :=
  TokenClass.all.find? fun cls => (k.style cls).toList == name

def opened? (k : Markup) (w : List Char) : Option (TokenClass × List Char) := do
  let rest ← k.opening.isPrefixOf? w
  let cls ← k.class? (rest.takeWhile (· ≠ k.stop))
  let inner ← (k.stop :: k.afterName).isPrefixOf? (rest.dropWhile (· ≠ k.stop))
  return (cls, inner)

def plain? (k : Markup) (w : List Char) : Option (List Segment) :=
  if w = [] then some [] else (k.decode? w).map fun chars => [⟨chars, none⟩]

/-- The marked text from an opening mark on, cut at its marks: openings and closings by turns. -/
def pieces? (k : Markup) : List (List Char) → Option (List Segment)
  | [] => some []
  | [_] => none
  | opened :: closed :: rest => do
    let (cls, inner) ← k.opened? opened
    let chars ← k.decode? inner
    let gap ← (k.closing.isPrefixOf? closed).bind k.plain?
    let later ← k.pieces? rest
    return ⟨chars, some cls⟩ :: (gap ++ later)

def readCut? (k : Markup) : List (List Char) → Option (List Segment)
  | [] => none
  | first :: rest => do
    let gap ← k.plain? first
    let later ← k.pieces? rest
    return gap ++ later

def read? (k : Markup) (cs : List Char) : Option (List Segment) := k.readCut? (splitAt k.mark cs)

/-- The mark stands in no label and no closing, and the name of each style ends where it should and
tells its class. -/
structure Readable (k : Markup) : Prop where
  mark_label : ∀ cls, k.mark ∉ k.label cls
  mark_closing : k.mark ∉ k.closing
  stop_style : ∀ cls, k.stop ∉ (k.style cls).toList
  class_style : ∀ cls, k.class? (k.style cls).toList = some cls
  decode_nil : k.decode? [] = some []

structure Faithful (k : Markup) (chars : List Char) : Prop where
  mark : k.mark ∉ k.encode chars
  decode : k.decode? (k.encode chars) = some chars

variable {k : Markup}

theorem opened?_label_append (hk : k.Readable) (cls : TokenClass) (inner : List Char) :
    k.opened? (k.label cls ++ inner) = some (cls, inner) := by
  have hname : ∀ ch ∈ (k.style cls).toList, decide (ch ≠ k.stop) = true := fun ch hch =>
    decide_eq_true fun heq => hk.stop_style cls (heq ▸ hch)
  have hopening : k.opening.isPrefixOf? (k.label cls ++ inner) =
      some ((k.style cls).toList ++ k.stop :: (k.afterName ++ inner)) :=
    List.isPrefixOf?_eq_some_iff_append_eq.2 (by simp [label])
  have htake : ((k.style cls).toList ++ k.stop :: (k.afterName ++ inner)).takeWhile (· ≠ k.stop) =
      (k.style cls).toList := by
    rw [List.takeWhile_append_of_pos hname, List.takeWhile_cons_of_neg (by simp), List.append_nil]
  have hdrop : ((k.style cls).toList ++ k.stop :: (k.afterName ++ inner)).dropWhile (· ≠ k.stop) =
      k.stop :: (k.afterName ++ inner) := by
    rw [List.dropWhile_append_of_pos hname, List.dropWhile_cons_of_neg (by simp)]
  have hinner : (k.stop :: k.afterName).isPrefixOf? (k.stop :: (k.afterName ++ inner)) =
      some inner :=
    List.isPrefixOf?_eq_some_iff_append_eq.2 rfl
  rw [opened?, hopening, Option.bind_eq_bind, Option.bind_some, htake, hk.class_style,
    Option.bind_eq_bind, Option.bind_some, hdrop, hinner]
  rfl

theorem Faithful.encode_ne_nil (hk : k.Readable) {chars : List Char} (h : k.Faithful chars)
    (hne : chars ≠ []) :
    k.encode chars ≠ [] := by
  intro hnil
  have hread := h.decode
  rw [hnil, hk.decode_nil, Option.some.injEq] at hread
  exact hne hread.symm

theorem readCut?_cons_eq_some {first : List Char} {rest : List (List Char)}
    {segments : List Segment} :
    k.readCut? (first :: rest) = some segments ↔
      ∃ gap later, k.plain? first = some gap ∧ k.pieces? rest = some later ∧
      gap ++ later = segments := by
  simp only [readCut?, Option.bind_eq_bind, Option.bind_eq_some_iff, Option.pure_def,
    Option.some.injEq]
  constructor
  · rintro ⟨gap, hgap, later, hlater, heq⟩
    exact ⟨gap, later, hgap, hlater, heq⟩
  · rintro ⟨gap, later, hgap, hlater, heq⟩
    exact ⟨gap, hgap, later, hlater, heq⟩

theorem read?_write_classed (hk : k.Readable) {chars : List Char}
    {cls : TokenClass} {cs : List Char}
    {segments : List Segment} (h : k.Faithful chars) (hcs : k.read? cs = some segments) :
    k.read? (k.write ⟨chars, some cls⟩ ++ cs) = some (⟨chars, some cls⟩ :: segments) := by
  unfold read? at hcs ⊢
  cases hcut : splitAt k.mark cs with
  | nil => simp [hcut, readCut?] at hcs
  | cons first rest =>
    rw [hcut, readCut?_cons_eq_some] at hcs
    obtain ⟨gap, later, hgap, hlater, rfl⟩ := hcs
    have hinner : k.mark ∉ k.label cls ++ k.encode chars :=
      fun hmem => (List.mem_append.1 hmem).elim (hk.mark_label cls) h.mark
    have hclosed : splitAt k.mark (k.mark :: (k.closing ++ cs)) =
        [] :: (k.closing ++ first) :: rest := by
      rw [splitAt_cons_self, splitAt_append hk.mark_closing hcut]
    have hpieces : splitAt k.mark (k.write ⟨chars, some cls⟩ ++ cs) =
        [] :: (k.label cls ++ k.encode chars ++ []) :: (k.closing ++ first) :: rest := by
      rw [← splitAt_append hinner hclosed, ← splitAt_cons_self]
      simp [write]
    have hprefix : k.closing.isPrefixOf? (k.closing ++ first) = some first :=
      List.isPrefixOf?_eq_some_iff_append_eq.2 rfl
    rw [hpieces, readCut?_cons_eq_some, List.append_nil]
    refine ⟨[], _, rfl, ?_, rfl⟩
    simp [pieces?, opened?_label_append hk, h.decode, hprefix, hgap, hlater]

theorem read?_write_gap (hk : k.Readable) {chars : List Char} {cs : List Char}
    {rest : List (List Char)}
    {segments : List Segment} (h : k.Faithful chars) (hne : chars ≠ [])
    (hcut : splitAt k.mark cs = [] :: rest) (hcs : k.read? cs = some segments) :
    k.read? (k.write ⟨chars, none⟩ ++ cs) = some (⟨chars, none⟩ :: segments) := by
  unfold read? at hcs ⊢
  rw [hcut, readCut?_cons_eq_some] at hcs
  obtain ⟨gap, later, hgap, hlater, rfl⟩ := hcs
  obtain rfl : [] = gap := Option.some.inj hgap
  have hpieces : splitAt k.mark (k.write ⟨chars, none⟩ ++ cs) = (k.encode chars ++ []) :: rest :=
    splitAt_append h.mark hcut
  rw [hpieces, List.append_nil, readCut?_cons_eq_some]
  refine ⟨[⟨chars, none⟩], later, ?_, hlater, rfl⟩
  rw [plain?, if_neg (h.encode_ne_nil hk hne), h.decode]
  rfl

/-- What was written of pieces is read as those pieces, if none is empty and no two without a class
stand side by side. -/
theorem read?_flatMap_write (hk : k.Readable) {segments : List Segment}
    (hne : ∀ s ∈ segments, s.chars ≠ [])
    (hgaps : segments.IsChain fun s s' => s.cls ≠ none ∨ s'.cls ≠ none)
    (hfaithful : ∀ s ∈ segments, k.Faithful s.chars) :
    k.read? (segments.flatMap k.write) = some segments := by
  induction segments with
  | nil => rfl
  | cons s rest ih =>
    obtain ⟨hnext, hgaps⟩ := List.isChain_cons.1 hgaps
    have ih := ih (fun s' hs' => hne s' (List.mem_cons_of_mem s hs')) hgaps
      fun s' hs' => hfaithful s' (List.mem_cons_of_mem s hs')
    have hs := hfaithful s (List.mem_cons_self ..)
    rw [List.flatMap_cons]
    obtain ⟨chars, cls⟩ := s
    cases cls with
    | some cls => exact read?_write_classed hk hs ih
    | none =>
      -- no gap follows a gap, so the rest is empty or begins with a mark
      have hcut : ∃ more, splitAt k.mark (rest.flatMap k.write) = [] :: more := by
        cases rest with
        | nil => exact ⟨[], rfl⟩
        | cons s' later =>
          obtain ⟨chars', cls'⟩ := s'
          cases cls' with
          | some cls' =>
            exact ⟨_, by rw [List.flatMap_cons, write, List.cons_append, splitAt_cons_self]⟩
          | none => simpa using hnext ⟨chars', none⟩ rfl
      obtain ⟨more, hcut⟩ := hcut
      exact read?_write_gap hk hs (hne _ (List.mem_cons_self ..)) hcut ih

end Markup

namespace Html

/-- Three entities stand for characters that otherwise never stand in text. -/
def unescape : List Char → Option (List Char)
  | [] => some []
  | '&' :: 'a' :: 'm' :: 'p' :: ';' :: rest => (unescape rest).map ('&' :: ·)
  | '&' :: 'l' :: 't' :: ';' :: rest => (unescape rest).map ('<' :: ·)
  | '&' :: 'g' :: 't' :: ';' :: rest => (unescape rest).map ('>' :: ·)
  | c :: rest => if c = '&' ∨ c = '<' ∨ c = '>' then none else (unescape rest).map (c :: ·)

def markup : Markup where
  mark := '<'
  opening := "span class=\"orson-".toList
  style := style
  stop := '"'
  afterName := ['>']
  closing := "/span>".toList
  encode := escape
  decode? := unescape

def read? (text : String) : Option (List Segment) := do
  let inside ← "</pre>\n".toList.isSuffixOf? text.toList
  let body ← "<pre class=\"orson\">".toList.isPrefixOf? inside
  markup.read? body

theorem unescape_cons {c : Char} (h : c ≠ '&' ∧ c ≠ '<' ∧ c ≠ '>') (rest : List Char) :
    unescape (c :: rest) = (unescape rest).map (c :: ·) := by
  conv_lhs => unfold unescape
  split <;> simp_all

theorem unescape_escape (s : List Char) : unescape (escape s) = some s := by
  induction s with
  | nil => rfl
  | cons c s ih =>
    unfold escape at ih ⊢
    rw [List.flatMap_cons]
    by_cases hamp : c = '&'
    · subst hamp
      simp [escapeChar, unescape, ih]
    by_cases hlt : c = '<'
    · subst hlt
      simp [escapeChar, unescape, ih]
    by_cases hgt : c = '>'
    · subst hgt
      simp [escapeChar, unescape, ih]
    have hc : escapeChar c = [c] := by simp [escapeChar, hamp, hlt, hgt]
    rw [hc, List.singleton_append, unescape_cons ⟨hamp, hlt, hgt⟩, ih]
    rfl

theorem not_mem_escape (s : List Char) : '<' ∉ escape s := by
  intro h
  obtain ⟨c, -, hc⟩ := List.mem_flatMap.1 h
  unfold escapeChar at hc
  split at hc
  · simp at hc
  · split at hc
    · simp at hc
    · split at hc
      · simp at hc
      · rename_i hlt _
        exact hlt (List.mem_singleton.1 hc).symm

theorem escape_eq_replacements (s : List Char) : escape s =
    ((s.flatMap fun c => if c = '&' then "&amp;".toList else [c]).flatMap
      fun c => if c = '<' then "&lt;".toList else [c]).flatMap
        fun c => if c = '>' then "&gt;".toList else [c] := by
  rw [escape, List.flatMap_assoc, List.flatMap_assoc]
  congr 1
  funext c
  by_cases hamp : c = '&'
  · subst hamp
    decide
  by_cases hlt : c = '<'
  · subst hlt
    decide
  simp [escapeChar, hamp, hlt]

theorem readable_markup : markup.Readable where
  mark_label cls := by cases cls <;> decide
  mark_closing := by decide
  stop_style cls := by cases cls <;> decide
  class_style cls := by cases cls <;> decide
  decode_nil := rfl

theorem segment_eq_write : segment = markup.write := by
  funext ⟨chars, cls⟩
  cases cls with
  | none => rfl
  | some cls =>
    simp [segment, Markup.write, Markup.label, markup]

theorem faithful_markup (chars : List Char) : markup.Faithful chars :=
  ⟨not_mem_escape chars, unescape_escape chars⟩

theorem read?_render {t : Text} {r : Classification}
    (h : Segment.Covers t r (Segment.ofClassification t r)) :
    read? (render t r) = some (Segment.ofClassification t r) := by
  have htext : (render t r).toList = "<pre class=\"orson\">".toList ++
      (Segment.ofClassification t r).flatMap markup.write ++ "</pre>\n".toList := by
    rw [← segment_eq_write]
    exact String.toList_ofList
  rw [read?, htext, List.isSuffixOf?_eq_some_iff_append_eq.2 rfl,
    Option.bind_eq_bind, Option.bind_some, List.isPrefixOf?_eq_some_iff_append_eq.2 rfl,
    Option.bind_some]
  exact Markup.read?_flatMap_write readable_markup h.nonempty h.gaps
    fun s _ => faithful_markup s.chars

end Html

namespace Ansi

def markup : Markup where
  mark := '\x1b'
  opening := ['[']
  style := style
  stop := 'm'
  afterName := []
  closing := ['[', '0', 'm']
  encode := id
  decode? := some

def read? (text : String) : Option (List Segment) := markup.read? text.toList

theorem readable_markup : markup.Readable where
  mark_label cls := by cases cls <;> decide
  mark_closing := by decide
  stop_style cls := by cases cls <;> decide
  class_style cls := by cases cls <;> decide
  decode_nil := rfl

theorem segment_eq_write : segment = markup.write := by
  funext ⟨chars, cls⟩
  cases cls with
  | none => rfl
  | some cls =>
    simp [segment, select, Markup.write, Markup.label, markup]

theorem faithful_markup {chars : List Char} (h : '\x1b' ∉ chars) : markup.Faithful chars := ⟨h, rfl⟩

theorem read?_render {t : Text} {r : Classification}
    (h : Segment.Covers t r (Segment.ofClassification t r))
    (hmark : '\x1b' ∉ t.cut r.start r.stop) :
    read? (render t r) = some (Segment.ofClassification t r) := by
  have hbody : (render t r).toList = (Segment.ofClassification t r).flatMap markup.write := by
    rw [render, String.toList_ofList, segment_eq_write]
  rw [read?, hbody]
  refine Markup.read?_flatMap_write readable_markup h.nonempty h.gaps
    fun s hs => faithful_markup fun hmem => ?_
  exact hmark (h.chars ▸ List.mem_flatMap_of_mem hs hmem)

end Ansi

theorem Text.mem_of_mem_cut {t : Text} {a b : Int} {ch : Char} (h : ch ∈ t.cut a b) : ch ∈ t := by
  obtain ⟨o, -, -, ho⟩ := Text.mem_slice.1 h
  exact Array.mem_of_getElem? ho

namespace Mode

/-- The pieces of a classified range make up its text, and both renderings are read back as those
pieces; the one for terminals needs a text without the mark that it uses itself. -/
theorem classify_readBack {m : Mode} (hm : m.Scannable) (t : Text) (start : Int)
    (stop : Option Int) :
    ∃ r, m.classify t start stop = some r ∧ Segment.Covers t r (Segment.ofClassification t r) ∧
      Html.read? (Html.render t r) = some (Segment.ofClassification t r) ∧
      ('\x1b' ∉ t → Ansi.read? (Ansi.render t r) = some (Segment.ofClassification t r)) := by
  obtain ⟨c, hr⟩ := hm.exists_reads
  have hcovers :=
    (hr.composited_ofRange (t := t) (Text.clamp_fst_le_snd _ start stop)
      (Text.clamp_snd_le _ _ _)).covers
  refine ⟨_, hr.classify_eq t start stop, hcovers, Html.read?_render hcovers, fun hmark =>
    Ansi.read?_render hcovers fun hmem => hmark (Text.mem_of_mem_cut hmem)⟩

theorem classify_readBack_forged :
    Mode.orson.Scannable ∧ '\x1b' ∉ Text.ofString "a<''</b>&lt;''if" ∧
      ∃ r segments, Mode.orson.classify (Text.ofString "a<''</b>&lt;''if") 0 none = some r ∧
        Segment.Covers (Text.ofString "a<''</b>&lt;''if") r segments ∧
        segments.map (·.cls) = [none, some .operator, some .string, some .clauseKeyword] ∧
        Html.render (Text.ofString "a<''</b>&lt;''if") r =
          "<pre class=\"orson\">a<span class=\"orson-operator\">&lt;</span>" ++
            "<span class=\"orson-string\">''&lt;/b&gt;&amp;lt;''</span>" ++
            "<span class=\"orson-keyword\">if</span></pre>\n" ∧
        Html.read? (Html.render (Text.ofString "a<''</b>&lt;''if") r) = some segments ∧
        Ansi.read? (Ansi.render (Text.ofString "a<''</b>&lt;''if") r) = some segments := by
  have hmark : '\x1b' ∉ Text.ofString "a<''</b>&lt;''if" := by decide +kernel
  obtain ⟨r, hr, hcovers, hhtml, hansi⟩ :=
    classify_readBack scannable_orson (Text.ofString "a<''</b>&lt;''if") 0 none
  have hvalue : Mode.orson.classify (Text.ofString "a<''</b>&lt;''if") 0 none =
      some ⟨0, 16, [⟨1, 2, .operator⟩, ⟨2, 14, .string⟩, ⟨14, 16, .clauseKeyword⟩],
      [⟨.string, 2, 13, true⟩],
        [(2, .opening), (13, .closing)]⟩ := by decide +kernel
  obtain rfl := Option.some.inj (hr.symm.trans hvalue)
  exact ⟨scannable_orson, hmark, _, _, hr, hcovers, by decide +kernel, by decide +kernel,
    hhtml, hansi hmark⟩

end Mode

end OrsonHighlight
