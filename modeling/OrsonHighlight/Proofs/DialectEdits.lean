import Mathlib.Data.List.Basic
import Mathlib.Data.List.Induction
import OrsonHighlight.Lexeme.Dialect

/-!
Dialects that edits make of the built-in one. Whatever is replaced or added, refused edits among
them, the six tables keep their names and classes and no word comes twice in one; an edit reaches
no table but its own, and the words that several tables have are listed with all their tables.
-/

set_option autoImplicit false

namespace OrsonHighlight

namespace LexemeTable

/-- The first word that equals an earlier one: all before it differ, and it is one of them. -/
def IsFirstRepeat (words : List String) (w : String) : Prop :=
  ∃ before rest, words = before ++ w :: rest ∧ before.Nodup ∧ w ∈ before

theorem exists_of_firstRepeat {seen words : List String} {w : String}
    (h : firstRepeat seen words = some w) :
    ∃ before rest, words = before ++ w :: rest ∧ before.Nodup ∧ (∀ v ∈ before, v ∉ seen) ∧
      (w ∈ before ∨ w ∈ seen) := by
  induction words generalizing seen with
  | nil => simp [firstRepeat] at h
  | cons v words ih =>
    by_cases hv : v ∈ seen
    · obtain rfl : v = w := by simpa [firstRepeat, hv] using h
      exact ⟨[], words, rfl, List.nodup_nil, by simp, .inr hv⟩
    · obtain ⟨before, rest, rfl, hnodup, hnew, hw⟩ := ih (by simpa [firstRepeat, hv] using h)
      have hfresh : v ∉ before := fun hmem => hnew v hmem (List.mem_cons_self ..)
      refine ⟨v :: before, rest, rfl, List.nodup_cons.2 ⟨hfresh, hnodup⟩, ?_, ?_⟩
      · intro u hu
        rcases List.mem_cons.1 hu with rfl | hu
        · exact hv
        · exact fun hmem => hnew u hu (List.mem_cons_of_mem v hmem)
      · simp only [List.mem_cons] at hw ⊢
        tauto

theorem exists_isFirstRepeat {words : List String} (h : ¬ words.Nodup) :
    ∃ w, IsFirstRepeat words w ∧ firstRepeat [] words = some w := by
  cases hw : firstRepeat [] words with
  | none => exact absurd (nodup_of_firstRepeat hw).1 h
  | some w =>
    obtain ⟨before, rest, heq, hnodup, -, hmem⟩ := exists_of_firstRepeat hw
    exact ⟨w, ⟨before, rest, heq, hnodup, by simpa using hmem⟩, rfl⟩

theorem firstRepeat_of_nodup {words : List String} (h : words.Nodup) :
    firstRepeat [] words = none := by
  cases hw : firstRepeat [] words with
  | none => rfl
  | some w =>
    obtain ⟨before, rest, rfl, -, -, hmem⟩ := exists_of_firstRepeat hw
    exact absurd rfl ((List.nodup_append.1 h).2.2 w (by simpa using hmem) w (List.mem_cons_self ..))

theorem ofWords_of_nodup (name : String) (cls : TokenClass) {words : List String}
    (h : words.Nodup) :
    ofWords name cls words = .ok ⟨name, cls, words, h⟩ := by
  unfold ofWords
  split
  · rename_i w hw
    rw [firstRepeat_of_nodup h] at hw
    simp at hw
  · rfl

theorem ofWords_of_firstRepeat (name : String) (cls : TokenClass) {words : List String} {w : String}
    (h : firstRepeat [] words = some w) : ofWords name cls words = .error ⟨name, w⟩ := by
  unfold ofWords
  split
  · rename_i w' hw
    rw [Option.some.inj (h.symm.trans hw)]
  · rename_i hw
    rw [h] at hw
    simp at hw

theorem mem_addNew {words : List String} {v w : String} :
    v ∈ addNew words w ↔ v ∈ words ∨ v = w := by
  by_cases hw : w ∈ words
  · have hmem : v = w → v ∈ words := fun heq => heq ▸ hw
    simp only [addNew, if_pos hw]
    tauto
  · simp [addNew, hw]

theorem mem_foldl_addNew {words extra : List String} {v : String} :
    v ∈ extra.foldl addNew words ↔ v ∈ words ∨ v ∈ extra := by
  induction extra generalizing words with
  | nil => simp
  | cons w extra ih => rw [List.foldl_cons, ih, mem_addNew, List.mem_cons, or_assoc]

theorem prefix_foldl_addNew (words extra : List String) : words <+: extra.foldl addNew words := by
  induction extra generalizing words with
  | nil => exact List.prefix_rfl
  | cons w extra ih =>
    have hstep : words <+: addNew words w := by
      by_cases hw : w ∈ words <;> simp [addNew, hw]
    exact hstep.trans (ih _)

theorem addNew_cons_of_ne {v w : String} (h : v ≠ w) (words : List String) :
    addNew (v :: words) w = v :: addNew words w := by
  by_cases hw : w ∈ words <;> simp [addNew, hw, Ne.symm h]

theorem pairwise_idxOf_foldl_addNew (words : List String) :
    (words.foldl addNew []).Pairwise fun v w => words.idxOf v < words.idxOf w := by
  induction words using List.reverseRecOn with
  | nil => exact List.Pairwise.nil
  | append_singleton words x ih =>
    have hold : ∀ v ∈ words.foldl addNew [], v ∈ words :=
      fun v hv => by simpa [mem_foldl_addNew] using hv
    have hkept : (words.foldl addNew []).Pairwise
        fun v w => (words ++ [x]).idxOf v < (words ++ [x]).idxOf w := by
      refine ih.imp_of_mem fun {v w} hv hw hlt => ?_
      rw [List.idxOf_append_of_mem (hold v hv), List.idxOf_append_of_mem (hold w hw)]
      exact hlt
    rw [List.foldl_append, List.foldl_cons, List.foldl_nil]
    by_cases hx : x ∈ words.foldl addNew []
    · rwa [addNew, if_pos hx]
    · rw [addNew, if_neg hx]
      refine List.pairwise_append.2 ⟨hkept, List.pairwise_singleton _ _, fun v hv w hw => ?_⟩
      obtain rfl := List.mem_singleton.1 hw
      have hnew : w ∉ words := by simpa [mem_foldl_addNew] using hx
      have hlt : words.idxOf v < words.length := List.idxOf_lt_length_of_mem (hold v hv)
      rw [List.idxOf_append_of_mem (hold v hv), List.idxOf_append_of_notMem hnew]
      omega

end LexemeTable

open LexemeTable

namespace TableName

theorem ofKey?_key (n : TableName) : ofKey? n.key = some n := by cases n <;> decide

theorem key_inj {n m : TableName} : n.key = m.key ↔ n = m := by
  constructor
  · intro h
    have hm := ofKey?_key m
    rw [← h, ofKey?_key] at hm
    exact Option.some.inj hm
  · exact fun h => h ▸ rfl

theorem ofKey?_eq_none {key : String} (h : ∀ n : TableName, n.key ≠ key) : ofKey? key = none :=
  List.find?_eq_none.2 fun n _ => by simpa using h n

end TableName

namespace Dialect

def Edit.key : Edit → String
  | replace key _ | extend key _ => key

/-- The two dialects differ in the words of one table and in nothing else. -/
structure AgreesBut (n : TableName) (d d' : Dialect) : Prop where
  name : d'.name = d.name
  tables : ∀ m, m ≠ n → d'.table m = d.table m
  tableName : (d'.table n).name = (d.table n).name
  cls : (d'.table n).cls = (d.table n).cls

variable {d d' : Dialect} {n : TableName} {T : LexemeTable}

theorem agreesBut_put (hname : T.name = (d.table n).name) (hcls : T.cls = (d.table n).cls) :
    AgreesBut n d (d.put n T hcls) where
  name := rfl
  tables m hm := by simp [hm]
  tableName := by simpa using hname
  cls := by simpa using hcls

def SameHeaders (d d' : Dialect) : Prop :=
  ∀ n, (d.table n).name = (d'.table n).name ∧ (d.table n).cls = (d'.table n).cls

theorem SameHeaders.refl (d : Dialect) : d.SameHeaders d := fun _ => ⟨rfl, rfl⟩

theorem SameHeaders.trans {d'' : Dialect} (h : d.SameHeaders d') (h' : d'.SameHeaders d'') :
    d.SameHeaders d'' :=
  fun n => ⟨(h n).1.trans (h' n).1, (h n).2.trans (h' n).2⟩

theorem AgreesBut.sameHeaders (h : AgreesBut n d d') : d'.SameHeaders d := by
  intro m
  by_cases hm : m = n
  · rw [hm]
    exact ⟨h.tableName, h.cls⟩
  · rw [h.tables m hm]
    exact ⟨rfl, rfl⟩

theorem named_key (n : TableName) : named n.key = .ok n := by rw [named, TableName.ofKey?_key]

theorem named_of_unknown (key : String) (h : ∀ n : TableName, n.key ≠ key) :
    named key = .error (.unknownTable key) := by
  rw [named, TableName.ofKey?_eq_none h]

theorem edit_of_unknown {e : Edit} (h : ∀ n : TableName, n.key ≠ e.key) :
    d.edit e = .error (.unknownTable e.key) := by
  cases e with
  | replace key words => rw [edit, named_of_unknown key h]; rfl
  | extend key words => rw [edit, named_of_unknown key h]; rfl

theorem edit_extend (d : Dialect) (n : TableName) (words : List String) :
    d.edit (.extend n.key words) = .ok (d.withExtra n words) := by
  rw [edit, named_key]
  rfl

theorem edit_replace (d : Dialect) (n : TableName) (words : List String) :
    d.edit (.replace n.key words) = (d.withTable n words).mapError .duplicate := by
  rw [edit, named_key]
  rfl

theorem withTable_of_nodup (d : Dialect) (n : TableName) {words : List String} (h : words.Nodup) :
    d.withTable n words =
      .ok (d.put n ⟨(d.table n).name, (d.table n).cls, words, h⟩ rfl) := by
  unfold withTable
  split
  · rename_i e he
    cases (ofWords_of_nodup _ _ h).symm.trans he
  · rename_i t ht
    cases (ofWords_of_nodup _ _ h).symm.trans ht
    rfl

theorem withTable_of_firstRepeat (d : Dialect) (n : TableName) {words : List String} {w : String}
    (h : firstRepeat [] words = some w) :
    d.withTable n words = .error ⟨(d.table n).name, w⟩ := by
  unfold withTable
  split
  · rename_i e he
    cases (ofWords_of_firstRepeat _ _ h).symm.trans he
    rfl
  · rename_i t ht
    cases (ofWords_of_firstRepeat _ _ h).symm.trans ht

theorem agreesBut_withTable {words : List String} (h : d.withTable n words = .ok d') :
    AgreesBut n d d' := by
  by_cases hnodup : words.Nodup
  · cases (withTable_of_nodup d n hnodup).symm.trans h
    exact agreesBut_put (T := ⟨(d.table n).name, (d.table n).cls, words, hnodup⟩) rfl rfl
  · obtain ⟨w, -, hw⟩ := exists_isFirstRepeat hnodup
    cases (withTable_of_firstRepeat d n hw).symm.trans h

theorem agreesBut_withExtra (d : Dialect) (n : TableName) (words : List String) :
    AgreesBut n d (d.withExtra n words) :=
  agreesBut_put (T := (d.table n).extended words) rfl rfl

theorem edit_replace_of_nodup (d : Dialect) (n : TableName) {words : List String}
    (h : words.Nodup) : d.edit (.replace n.key words) =
      .ok (d.put n ⟨(d.table n).name, (d.table n).cls, words, h⟩ rfl) := by
  rw [edit_replace, withTable_of_nodup d n h]
  rfl

theorem edit_replace_of_firstRepeat (d : Dialect) (n : TableName) {words : List String}
    {w : String} (h : firstRepeat [] words = some w) :
    d.edit (.replace n.key words) = .error (.duplicate ⟨(d.table n).name, w⟩) := by
  rw [edit_replace, withTable_of_firstRepeat d n h]
  rfl

@[simp] theorem lexemes_put (hcls : T.cls = (d.table n).cls) (m : TableName) :
    (d.put n T hcls).lexemes m = if m = n then T.lexemes else d.lexemes m := by
  unfold lexemes
  rw [table_put]
  split <;> rfl

@[simp] theorem lexemes_withExtra (d : Dialect) (n m : TableName) (words : List String) :
    (d.withExtra n words).lexemes m =
      if m = n then words.foldl addNew (d.lexemes n) else d.lexemes m :=
  lexemes_put (T := (d.table n).extended words) rfl m

/-- The dialect after an edit; one that is refused leaves it as it was. -/
def after (d : Dialect) (e : Edit) : Dialect :=
  match d.edit e with
  | .ok d' => d'
  | .error _ => d

def reached (es : List Edit) : Dialect := es.foldl after orson

theorem sameHeaders_of_edit {e : Edit} (h : d.edit e = .ok d') : d'.SameHeaders d := by
  by_cases hkey : ∃ n : TableName, n.key = e.key
  · obtain ⟨n, hn⟩ := hkey
    cases e with
    | replace key words =>
      obtain rfl : n.key = key := hn
      rw [edit_replace] at h
      cases hw : d.withTable n words with
      | error e => simp [hw, Except.mapError] at h
      | ok d'' =>
        rw [hw] at h
        cases h
        exact (agreesBut_withTable hw).sameHeaders
    | extend key words =>
      obtain rfl : n.key = key := hn
      cases (edit_extend d n words).symm.trans h
      exact (agreesBut_withExtra d n words).sameHeaders
  · cases (edit_of_unknown fun n hn => hkey ⟨n, hn⟩).symm.trans h

theorem sameHeaders_after (d : Dialect) (e : Edit) : (d.after e).SameHeaders d := by
  unfold after
  split
  · exact sameHeaders_of_edit ‹_›
  · exact .refl d

/-- No run of edits, refused ones among them, changes the name or the class of a table. -/
theorem sameHeaders_foldl_after (es : List Edit) (d : Dialect) :
    (es.foldl after d).SameHeaders d := by
  induction es generalizing d with
  | nil => exact .refl d
  | cons e es ih => exact (ih (d.after e)).trans (sameHeaders_after d e)

def Standard (d : Dialect) : Prop :=
  ∀ n, (d.table n).name = n.key ∧ (d.table n).cls = n.cls

theorem standard_orson : orson.Standard := fun _ => ⟨rfl, rfl⟩

theorem SameHeaders.standard (h : d'.SameHeaders d) (hd : d.Standard) : d'.Standard :=
  fun n => ⟨(h n).1.trans (hd n).1, (h n).2.trans (hd n).2⟩

theorem standard_reached (es : List Edit) : (reached es).Standard :=
  (sameHeaders_foldl_after es orson).standard standard_orson

/-- What an edit leaves in a table: another table is untouched, and its own is told from its words
before. -/
def Edit.wordsIn (n : TableName) (words : List String) : Edit → List String
  | .replace key new => if key = n.key ∧ new.Nodup then new else words
  | .extend key new => if key = n.key then new.foldl addNew words else words

theorem Edit.wordsIn_of_ne {n : TableName} {e : Edit} (h : e.key ≠ n.key) (words : List String) :
    e.wordsIn n words = words := by
  cases e with
  | replace key new => simp [wordsIn, show key ≠ n.key from h]
  | extend key new => simp [wordsIn, show key ≠ n.key from h]

theorem lexemes_after (d : Dialect) (e : Edit) (n : TableName) :
    (d.after e).lexemes n = e.wordsIn n (d.lexemes n) := by
  by_cases hkey : ∃ m : TableName, m.key = e.key
  · obtain ⟨m, hm⟩ := hkey
    have hsame : m.key = n.key ↔ n = m := TableName.key_inj.trans eq_comm
    cases e with
    | replace key words =>
      obtain rfl : m.key = key := hm
      by_cases hnodup : words.Nodup
      · simp [after, edit_replace_of_nodup d m hnodup, Edit.wordsIn, hsame, hnodup]
      · obtain ⟨w, -, hw⟩ := exists_isFirstRepeat hnodup
        simp [after, edit_replace_of_firstRepeat d m hw, Edit.wordsIn, hnodup]
    | extend key words =>
      obtain rfl : m.key = key := hm
      by_cases hnm : n = m
      · simp [after, edit_extend, Edit.wordsIn, hnm]
      · simp [after, edit_extend, Edit.wordsIn, hsame, hnm]
  · have hunknown : ∀ m : TableName, m.key ≠ e.key := fun m hm => hkey ⟨m, hm⟩
    rw [Edit.wordsIn_of_ne (Ne.symm (hunknown n)), after, edit_of_unknown hunknown]

theorem lexemes_foldl_after (es : List Edit) (d : Dialect) (n : TableName) :
    (es.foldl after d).lexemes n =
      es.foldl (fun words e => e.wordsIn n words) (d.lexemes n) := by
  induction es generalizing d with
  | nil => rfl
  | cons e es ih => rw [List.foldl_cons, List.foldl_cons, ih, lexemes_after]

theorem lexemes_reached_filter (es : List Edit) (n : TableName) :
    (reached es).lexemes n = (reached (es.filter (·.key = n.key))).lexemes n := by
  unfold reached
  rw [lexemes_foldl_after, lexemes_foldl_after]
  generalize orson.lexemes n = words
  induction es generalizing words with
  | nil => rfl
  | cons e es ih =>
    by_cases hkey : e.key = n.key
    · simp [hkey, ih]
    · simp [hkey, Edit.wordsIn_of_ne hkey, ih]

def reading (d : Dialect) : List String := d.tables.flatMap (·.lexemes)

/-- The tables that have the word, by rising priority. -/
def ownersOf (d : Dialect) (l : String) : List String :=
  (d.tables.filter (l ∈ ·.lexemes)).map (·.name)

def entries (d : Dialect) : List (String × String) :=
  d.tables.flatMap fun T => T.lexemes.map fun l => (T.name, l)

theorem addOwner_map (table l : String) {ks : List String} (hks : ks.Nodup)
    {f : String → List String} (hf : l ∉ ks → f l = []) :
    addOwner table l (ks.map fun k => (k, f k)) =
      (addNew ks l).map fun k => (k, if k = l then f k ++ [table] else f k) := by
  induction ks with
  | nil => simp [addOwner, addNew, hf]
  | cons k ks ih =>
    obtain ⟨hk, hks⟩ := List.nodup_cons.1 hks
    by_cases hkl : k = l
    · subst hkl
      have hrest : ∀ k' ∈ ks, k' ≠ k := fun k' hk' heq => hk (heq ▸ hk')
      have hsame : ks.map (fun k' => (k', if k' = k then f k' ++ [table] else f k')) =
          ks.map fun k' => (k', f k') :=
        List.map_congr_left fun k' hk' => by rw [if_neg (hrest k' hk')]
      simp [addOwner, addNew, hsame]
    · have hrest := ih hks fun hl => hf (by simp [Ne.symm hkl, hl])
      simp [addOwner, hkl, addNew_cons_of_ne hkl, hrest]

theorem foldl_addOwner (es : List (String × String)) :
    es.foldl (fun found e => addOwner e.1 e.2 found) [] =
      ((es.map Prod.snd).foldl addNew []).map fun l => (l, (es.filter (·.2 = l)).map Prod.fst) := by
  induction es using List.reverseRecOn with
  | nil => rfl
  | append_singleton es e ih =>
    obtain ⟨table, l⟩ := e
    have hnone : l ∉ (es.map Prod.snd).foldl addNew [] →
        (es.filter (·.2 = l)).map Prod.fst = [] := by
      intro hl
      have habsent : ∀ e ∈ es, e.2 ≠ l := fun e he heq =>
        hl (mem_foldl_addNew.2 (.inr (heq ▸ List.mem_map_of_mem he)))
      simpa using fun t l' he => habsent (t, l') he
    rw [List.foldl_append, ih, List.map_append, List.foldl_append]
    simp only [List.foldl_cons, List.foldl_nil, List.map_cons, List.map_nil]
    rw [addOwner_map table l (nodup_foldl_addNew _ List.nodup_nil) hnone]
    refine List.map_congr_left fun k _ => ?_
    by_cases hk : k = l
    · simp [hk]
    · simp [hk, Ne.symm hk]

theorem filter_eq_of_nodup {words : List String} (h : words.Nodup) (l : String) :
    words.filter (· = l) = if l ∈ words then [l] else [] := by
  induction words with
  | nil => rfl
  | cons w words ih =>
    obtain ⟨hw, h⟩ := List.nodup_cons.1 h
    by_cases hl : w = l
    · subst hl
      simp [ih h, hw]
    · simp [hl, Ne.symm hl, ih h]

theorem owners_eq_foldl (d : Dialect) :
    d.owners = d.entries.foldl (fun found e => addOwner e.1 e.2 found) [] := by
  simp [owners, entries, List.foldl_flatMap, List.foldl_map]

theorem map_snd_entries (d : Dialect) : d.entries.map Prod.snd = d.reading := by
  simp [entries, reading, List.map_flatMap, Function.comp_def]

theorem map_fst_filter_entries (d : Dialect) (l : String) :
    (d.entries.filter (·.2 = l)).map Prod.fst = d.ownersOf l := by
  unfold entries ownersOf
  induction d.tables with
  | nil => rfl
  | cons T Ts ih =>
    rw [List.flatMap_cons, List.filter_append, List.map_append, ih, List.filter_map, List.map_map]
    have hone := filter_eq_of_nodup T.distinct l
    by_cases hl : l ∈ T.lexemes <;> simp_all [Function.comp_def]

theorem owners_eq (d : Dialect) :
    d.owners = (d.reading.foldl addNew []).map fun l => (l, d.ownersOf l) := by
  rw [owners_eq_foldl, foldl_addOwner, map_snd_entries]
  simp only [map_fst_filter_entries]

theorem one_lt_length_filter_iff {α : Type} {xs : List α} (h : xs.Nodup) {f : α → Bool} :
    1 < (xs.filter f).length ↔ ∃ x ∈ xs, ∃ y ∈ xs, x ≠ y ∧ f x = true ∧ f y = true := by
  constructor
  · intro hlt
    obtain ⟨x, y, rest, hfilter⟩ : ∃ x y rest, xs.filter f = x :: y :: rest := by
      match hxs : xs.filter f, hlt with
      | x :: y :: rest, _ => exact ⟨x, y, rest, rfl⟩
    have hx : x ∈ xs.filter f := by simp [hfilter]
    have hy : y ∈ xs.filter f := by simp [hfilter]
    have hnodup := h.filter f
    rw [hfilter] at hnodup
    have hne : x ≠ y := fun heq => (List.nodup_cons.1 hnodup).1 (by simp [heq])
    exact ⟨x, (List.mem_filter.1 hx).1, y, (List.mem_filter.1 hy).1, hne, (List.mem_filter.1 hx).2,
      (List.mem_filter.1 hy).2⟩
  · rintro ⟨x, hx, y, hy, hne, hfx, hfy⟩
    have hx := List.mem_filter.2 ⟨hx, hfx⟩
    have hy := List.mem_filter.2 ⟨hy, hfy⟩
    match hxs : xs.filter f with
    | [] => simp [hxs] at hx
    | [z] =>
      rw [hxs, List.mem_singleton] at hx hy
      exact absurd (hx.trans hy.symm) hne
    | _ :: _ :: _ => simp

theorem ownersOf_eq (d : Dialect) (l : String) :
    d.ownersOf l = (TableName.all.filter (l ∈ d.lexemes ·)).map fun n => (d.table n).name := by
  rw [ownersOf, tables, List.filter_map, List.map_map]
  rfl

theorem one_lt_length_ownersOf {l : String} :
    1 < (d.ownersOf l).length ↔ ∃ n m, n ≠ m ∧ l ∈ d.lexemes n ∧ l ∈ d.lexemes m := by
  rw [ownersOf_eq, List.length_map, one_lt_length_filter_iff TableName.nodup_all]
  simp [TableName.mem_all]

theorem Standard.nodup_ownersOf (h : d.Standard) (l : String) : (d.ownersOf l).Nodup := by
  have hnames : (TableName.all.filter (l ∈ d.lexemes ·)).Nodup := TableName.nodup_all.filter _
  rw [ownersOf_eq]
  refine List.pairwise_map.2 (hnames.imp fun {n m} hne heq => hne ?_)
  rw [(h n).1, (h m).1] at heq
  exact TableName.key_inj.1 heq

theorem mem_reading {l : String} {n : TableName} (h : l ∈ d.lexemes n) : l ∈ d.reading :=
  List.mem_flatMap.2 ⟨d.table n, List.mem_map_of_mem n.mem_all, h⟩

theorem mem_overlaps {l : String} {names : List String} :
    (l, names) ∈ d.overlaps ↔
      (∃ n m, n ≠ m ∧ l ∈ d.lexemes n ∧ l ∈ d.lexemes m) ∧ names = d.ownersOf l := by
  rw [overlaps, owners_eq, ← one_lt_length_ownersOf]
  simp only [List.mem_filter, List.mem_map, Prod.mk.injEq, decide_eq_true_eq]
  constructor
  · rintro ⟨⟨l', -, rfl, rfl⟩, hlt⟩
    exact ⟨hlt, rfl⟩
  · rintro ⟨hlt, rfl⟩
    obtain ⟨n, -, -, hn, -⟩ := one_lt_length_ownersOf.1 hlt
    exact ⟨⟨l, mem_foldl_addNew.2 (.inr (mem_reading hn)), rfl, rfl⟩, hlt⟩

theorem pairwise_overlaps (d : Dialect) :
    (d.overlaps.map Prod.fst).Pairwise fun l l' => d.reading.idxOf l < d.reading.idxOf l' := by
  have hwords : (d.owners.map Prod.fst).Pairwise
      fun l l' => d.reading.idxOf l < d.reading.idxOf l' := by
    rw [owners_eq, List.map_map]
    simpa [Function.comp_def] using pairwise_idxOf_foldl_addNew d.reading
  exact hwords.sublist (List.filter_sublist.map Prod.fst)

/-- The six tables in their order, what each edit does to them or why it is refused, and the words
that more than one of them has. -/
structure Lawful (d : Dialect) : Prop where
  tables : d.tables.map (fun T => (T.name, T.cls)) =
    [("plain_names", .plainName), ("operators", .operator), ("clause_keywords", .clauseKeyword),
     ("quoted_names", .quotedName), ("simple_types", .simpleType), ("joker_types", .jokerType)]
  distinct : ∀ T ∈ d.tables, T.lexemes.Nodup
  unknown : ∀ e : Edit, e.key ∉ d.tables.map (·.name) → d.edit e = .error (.unknownTable e.key)
  extend : ∀ (n : TableName) (words : List String),
    ∃ d', d.edit (.extend n.key words) = .ok d' ∧ AgreesBut n d d' ∧
      d.lexemes n <+: d'.lexemes n ∧ ∀ w, w ∈ d'.lexemes n ↔ w ∈ d.lexemes n ∨ w ∈ words
  replace : ∀ (n : TableName) (words : List String), words.Nodup →
    ∃ d', d.edit (.replace n.key words) = .ok d' ∧ AgreesBut n d d' ∧ d'.lexemes n = words
  refused : ∀ (n : TableName) (words : List String), ¬ words.Nodup →
    ∃ w, IsFirstRepeat words w ∧
      d.edit (.replace n.key words) = .error (.duplicate ⟨n.key, w⟩)
  overlaps : ∀ l names, (l, names) ∈ d.overlaps ↔
    (∃ n m, n ≠ m ∧ l ∈ d.lexemes n ∧ l ∈ d.lexemes m) ∧ names = d.ownersOf l
  once : ∀ l names, (l, names) ∈ d.overlaps → names.Nodup
  order : (d.overlaps.map Prod.fst).Pairwise fun l l' => d.reading.idxOf l < d.reading.idxOf l'

theorem Standard.map_header (h : d.Standard) :
    d.tables.map (fun T => (T.name, T.cls)) = TableName.all.map fun n => (n.key, n.cls) := by
  rw [tables, List.map_map]
  exact List.map_congr_left fun n _ => Prod.ext (h n).1 (h n).2

theorem Standard.lawful (h : d.Standard) : d.Lawful where
  tables := h.map_header
  distinct T _ := T.distinct
  unknown e he := edit_of_unknown fun n hn => he
    (List.mem_map.2 ⟨d.table n, List.mem_map_of_mem n.mem_all, (h n).1.trans hn⟩)
  extend n words := ⟨d.withExtra n words, edit_extend d n words, agreesBut_withExtra d n words, by
    simpa using prefix_foldl_addNew (d.lexemes n) words, fun w => by simp [mem_foldl_addNew]⟩
  replace n words hw := ⟨_, edit_replace_of_nodup d n hw,
    agreesBut_put (T := ⟨(d.table n).name, (d.table n).cls, words, hw⟩) rfl rfl, by simp⟩
  refused n words hw := by
    obtain ⟨w, hfirst, hw⟩ := exists_isFirstRepeat hw
    exact ⟨w, hfirst, by rw [edit_replace_of_firstRepeat d n hw, (h n).1]⟩
  overlaps l names := mem_overlaps
  once l names hl := by
    rw [(mem_overlaps.1 hl).2]
    exact h.nodup_ownersOf l
  order := d.pairwise_overlaps

theorem reached_lawful (es : List Edit) :
    (reached es).Lawful ∧ ∀ n : TableName,
      (reached es).lexemes n = (reached (es.filter (·.key = n.key))).lexemes n :=
  ⟨(standard_reached es).lawful, lexemes_reached_filter es⟩

example : (reached [.replace "joker_types" ["a", "b"], .extend "joker_types" ["b", "c", "c"],
    .replace "joker_types" ["d", "e", "d"], .replace "numbers" []]).lexemes .jokerTypes =
      ["a", "b", "c"] := by
  decide +kernel

end Dialect

end OrsonHighlight
