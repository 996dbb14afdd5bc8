import OrsonHighlight.Cli.Run
import OrsonHighlight.Proofs.FenceOrder
import OrsonHighlight.Proofs.JsonReading
import OrsonHighlight.Proofs.Readback

/-!
The outputs that programs read. Cut at any line boundary, the lines tell one span each, and the
quoted text of a line is the text of its span; a JSON document is read back as the whole
classification.
-/

set_option autoImplicit false

namespace OrsonHighlight

/-- Everything that ends a line in some convention. -/
def isLineBoundary (c : Char) : Bool :=
  ['\n', '\r', '\x0b', '\x0c', '\x1c', '\x1d', '\x1e', '\u0085', '\u2028', '\u2029'].contains c

/-- The lines without what ends them; a carriage return before a line feed is part of the line
end. -/
def splitLines : List Char → List (List Char)
  | [] => []
  | c :: rest =>
    if c = '\r' ∧ rest.head? = some '\n' then splitLines rest
    else if isLineBoundary c then [] :: splitLines rest
    else match splitLines rest with
      | [] => [[c]]
      | line :: lines => (c :: line) :: lines

theorem splitLines_append {w : List Char} (hw : ∀ c ∈ w, isLineBoundary c = false)
    (rest : List Char) :
    splitLines (w ++ '\n' :: rest) = w :: splitLines rest := by
  induction w with
  | nil => rfl
  | cons c w ih =>
    have hc := hw c (List.mem_cons_self ..)
    have hreturn : c ≠ '\r' := by
      rintro rfl
      exact absurd hc (by decide)
    rw [List.cons_append, splitLines, if_neg (by simp [hreturn]), hc,
      ih fun c' hc' => hw c' (List.mem_cons_of_mem c hc')]
    rfl

theorem splitLines_flatMap {α : Type} {f : α → List Char} {xs : List α}
    (h : ∀ x ∈ xs, ∀ c ∈ f x, isLineBoundary c = false) :
    splitLines (xs.flatMap fun x => f x ++ ['\n']) = xs.map f := by
  induction xs with
  | nil => rfl
  | cons x xs ih =>
    rw [List.flatMap_cons, List.append_assoc, List.singleton_append,
      splitLines_append (h x (List.mem_cons_self ..)),
      ih fun y hy => h y (List.mem_cons_of_mem x hy), List.map_cons]

theorem not_isPrintable_of_isLineBoundary {c : Char} (h : isLineBoundary c = true) :
    Unicode.isPrintable c = false := by
  have hall :
      ∀ c ∈ ['\n', '\r', '\x0b', '\x0c', '\x1c', '\x1d', '\x1e', '\u0085', '\u2028', '\u2029'],
      (!Unicode.isPrintable c) = true := List.all_eq_true.1 (by decide +kernel)
  simpa using hall c (by simpa [isLineBoundary] using h)

theorem splitAt_append_cons {sep : Char} {w : List Char} (hw : sep ∉ w) (cs : List Char) :
    splitAt sep (w ++ sep :: cs) = w :: splitAt sep cs := by
  rw [splitAt_append_sep, splitAt_of_not_mem hw, List.singleton_append]

namespace SpanLines

/-- Four fields between three tabs: the two ends of the span, the name of its class, and its text as
a literal. -/
structure Tells (t : Text) (line : List Char) (s : Span) : Prop where
  tabs : line.count '\t' = 3
  fields : ∃ start stop cls literal, splitAt '\t' line = [start, stop, cls, literal] ∧
    Decimal.read? start = some s.start ∧ Decimal.read? stop = some s.stop ∧
    cls = s.cls.name.toList ∧ Quoted.decode? literal = some (t.cut s.start s.stop)

theorem isPrintable_of_mem_toString {n : Int} {c : Char} (h : c ∈ (toString n).toList) :
    Unicode.isPrintable c = true :=
  Decimal.forall_mem_toString (P := fun c => Unicode.isPrintable c = true) (by decide +kernel)
    (by decide +kernel) h

theorem isPrintable_of_mem_name {cls : TokenClass} {c : Char} (h : c ∈ cls.name.toList) :
    Unicode.isPrintable c = true := by
  have hall : ∀ cls ∈ TokenClass.all, cls.name.toList.all Unicode.isPrintable = true := by
    decide +kernel
  exact List.all_eq_true.1 (hall cls (List.mem_of_getElem? (TokenClass.all_getElem?_index cls))) c h

theorem tab_not_mem {w : List Char} (h : ∀ c ∈ w, Unicode.isPrintable c = true) : '\t' ∉ w := by
  intro hmem
  exact absurd (h '\t' hmem) (by decide +kernel)

theorem tells_span (t : Text) (s : Span) : Tells t (span t s) s := by
  have hstart : '\t' ∉ (toString s.start).toList := tab_not_mem fun c => isPrintable_of_mem_toString
  have hstop : '\t' ∉ (toString s.stop).toList := tab_not_mem fun c => isPrintable_of_mem_toString
  have hcls : '\t' ∉ s.cls.name.toList := tab_not_mem fun c => isPrintable_of_mem_name
  have hliteral : '\t' ∉ Quoted.encode (s.chars t) :=
    tab_not_mem fun c => Quoted.isPrintable_of_mem_encode
  refine ⟨?_, _, _, _, _, ?_, Decimal.read?_toString s.start, Decimal.read?_toString s.stop, rfl,
    Quoted.decode?_encode (s.chars t)⟩
  · simp only [span, List.append_assoc, List.cons_append, List.count_append, List.count_cons_self,
      List.count_eq_zero_of_not_mem hstart, List.count_eq_zero_of_not_mem hstop,
      List.count_eq_zero_of_not_mem hcls, List.count_eq_zero_of_not_mem hliteral]
  · simp only [span, List.append_assoc, List.cons_append]
    rw [splitAt_append_cons hstart, splitAt_append_cons hstop, splitAt_append_cons hcls,
      splitAt_of_not_mem hliteral]

theorem not_isLineBoundary_of_mem_span {t : Text} {s : Span} {c : Char} (h : c ∈ span t s) :
    isLineBoundary c = false := by
  have hprintable : c = '\t' ∨ Unicode.isPrintable c = true := by
    simp only [span, List.mem_append, List.mem_cons] at h
    obtain (((h | h | h) | h | h) | h | h) := h
    · exact .inr (isPrintable_of_mem_toString h)
    · exact .inl h
    · exact .inr (isPrintable_of_mem_toString h)
    · exact .inl h
    · exact .inr (isPrintable_of_mem_name h)
    · exact .inl h
    · exact .inr (Quoted.isPrintable_of_mem_encode h)
  cases hboundary : isLineBoundary c with
  | false => rfl
  | true =>
    rcases hprintable with rfl | hprintable
    · exact absurd hboundary (by decide)
    · rw [not_isPrintable_of_isLineBoundary hboundary] at hprintable
      exact absurd hprintable (by decide)

theorem forall₂_tells_render (t : Text) (r : Classification) :
    List.Forall₂ (Tells t) (splitLines (render t r).toList) r.spans := by
  rw [render, String.toList_ofList, document,
    splitLines_flatMap fun s _ c hc => not_isLineBoundary_of_mem_span hc, List.forall₂_map_left_iff,
    List.forall₂_same]
  exact fun s _ => tells_span t s

end SpanLines

namespace Cli

theorem present_fst {o : Options} {t : Text} {r : Classification}
    (h : o.mode.classify t o.start o.stop = some r) (j : Journal) :
    (present o t j).1 =
      some ((o.format.getD .spans).render t r, if o.debug then Dump.render t r else "") := by
  simp only [present, Journal.classify_fst, h, Option.map_some]

/-- A run in a mode that can be scanned presents the classification of its range. Its lines of spans
tell the spans one by one, and its JSON document is read back as that classification, with the
fences by ascending offset. -/
theorem present_decodes {o : Options} (hm : o.mode.Scannable) (t : Text) (j : Journal) :
    ∃ r out dump, o.mode.classify t o.start o.stop = some r ∧ (present o t j).1 = some (out, dump) ∧
      r.fences.Ascending ∧
      (o.format.getD .spans = .spans →
        List.Forall₂ (SpanLines.Tells t) (splitLines out.toList) r.spans) ∧
      (o.format.getD .spans = .json →
        (Json.read? out.toList).bind Json.classification? = some r) := by
  obtain ⟨c, hr⟩ := hm.exists_reads
  have hclassify := hr.classify_eq t o.start o.stop
  have hfences := Classification.ascending_fences_ofRange o.mode.compiled c t
    (Text.clamp t.size o.start o.stop).1 (Text.clamp t.size o.start o.stop).2
  refine ⟨_, _, _, hclassify, present_fst hclassify j, hfences,
    fun hformat => ?_, fun hformat => ?_⟩
  · rw [hformat]
    exact SpanLines.forall₂_tells_render t _
  · rw [hformat]
    exact Json.read?_render hfences

theorem present_decodes_quotes :
    Mode.orson.Scannable ∧
      (∃ r out dump, Mode.orson.classify (.ofString "''\t\"\\\nb\u2028'' if") 0 none = some r ∧
        r.spans = [⟨0, 10, .string⟩, ⟨11, 13, .clauseKeyword⟩] ∧
        (present ⟨.ofString "a.op", none, none, 0, none, Mode.orson, false⟩
          (.ofString "''\t\"\\\nb\u2028'' if") .empty).1 = some (out, dump) ∧
        List.Forall₂ (SpanLines.Tells (.ofString "''\t\"\\\nb\u2028'' if"))
          (splitLines out.toList) r.spans) ∧
      ∃ r out dump, Mode.orson.classify (.ofString "''\t\"\\\nb\u2028'' if") 0 none = some r ∧
        r.fences = [(0, .opening), (9, .closing)] ∧
        (present ⟨.ofString "a.op", none, some .json, 0, none, Mode.orson, false⟩
          (.ofString "''\t\"\\\nb\u2028'' if") .empty).1 = some (out, dump) ∧
        (Json.read? out.toList).bind Json.classification? = some r := by
  have hvalue : Mode.orson.classify (.ofString "''\t\"\\\nb\u2028'' if") 0 none =
      some ⟨0, 13, [⟨0, 10, .string⟩, ⟨11, 13, .clauseKeyword⟩], [⟨.string, 0, 9, true⟩],
        [(0, .opening), (9, .closing)]⟩ := by decide +kernel
  obtain ⟨r, out, dump, hr, hout, -, hspans, -⟩ := present_decodes
    (o := ⟨.ofString "a.op", none, none, 0, none, Mode.orson, false⟩) Mode.scannable_orson
    (.ofString "''\t\"\\\nb\u2028'' if") .empty
  obtain ⟨r', out', dump', hr', hout', -, -, hjson⟩ := present_decodes
    (o := ⟨.ofString "a.op", none, some .json, 0, none, Mode.orson, false⟩) Mode.scannable_orson
    (.ofString "''\t\"\\\nb\u2028'' if") .empty
  obtain rfl := Option.some.inj (hvalue.symm.trans hr)
  obtain rfl := Option.some.inj (hvalue.symm.trans hr')
  exact ⟨Mode.scannable_orson, ⟨_, out, dump, hvalue, rfl, hout, hspans rfl⟩, _, out', dump',
    hvalue, rfl, hout', hjson rfl⟩

end Cli

end OrsonHighlight
