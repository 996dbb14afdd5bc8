import Mathlib.Data.List.Perm.Basic
import Mathlib.Data.Set.List
import OrsonHighlight.Proofs.ConfiguredModes

set_option autoImplicit false

namespace OrsonHighlight

namespace Config

variable {config config' entries : Toml.Entries} {base m m' : Mode}
  {tables tables' extend extend' : List (TableName × List String)}

theorem wordsOf_eq_foldl (tables extend : List (TableName × List String))
    (base : List String) (n : TableName) :
    wordsOf tables extend base n =
      (listsOf n extend).flatten.foldl LexemeTable.addNew ((listsOf n tables).getLastD base) :=
  (LexemeTable.foldl_addNew_eq _ _).symm

theorem foldl_addNew_of_subset {words extra : List String} (h : ∀ w ∈ extra, w ∈ words) :
    extra.foldl LexemeTable.addNew words = words := by
  have hnone : extra.filter (· ∉ words) = [] :=
    List.filter_eq_nil_iff.2 fun w hw => by simpa using h w hw
  rw [LexemeTable.foldl_addNew_eq, hnone, List.eraseDups_nil, List.append_nil]

theorem wordsOf_wordsOf (tables extend : List (TableName × List String))
    (base : List String) (n : TableName) :
    wordsOf tables extend (wordsOf tables extend base n) n = wordsOf tables extend base n := by
  simp only [wordsOf_eq_foldl]
  cases listsOf n tables with
  | nil => exact foldl_addNew_of_subset fun w hw => LexemeTable.mem_foldl_addNew.2 (.inr hw)
  | cons words lists => rw [List.getLastD_cons, List.getLastD_cons]

theorem setting_self {key base s : String} (h : setting entries key base = some s) :
    setting entries key s = some s := by
  unfold setting at h ⊢
  split at h
  · rfl
  · exact h

theorem Built.again (h : Built tables extend entries base m) : Built tables extend entries m m where
  table n := by
    have hwords := (h.table n).2.2
    exact ⟨rfl, rfl, by rw [hwords, wordsOf_wordsOf]⟩
  dialectName := by
    have hname := h.dialectName
    split at hname
    · rw [if_pos ‹_›]
    · rw [if_neg ‹_›, hname]
  strings :=
    { h.strings with
      name := setting_self h.strings.name
      commentStart := setting_self h.strings.commentStart
      stringDelimiter := setting_self h.strings.stringDelimiter
      wordChars := setting_self h.strings.wordChars }
  fileExtensions := rfl
  blockOpen := rfl
  blockClose := rfl

theorem Built.unique (h : Built tables extend entries base m)
    (h' : Built tables extend entries base m') : m = m' := by
  have hname : m.name = m'.name := Option.some.inj (h.strings.name.symm.trans h'.strings.name)
  have hcomment : m.commentStart = m'.commentStart :=
    Option.some.inj (h.strings.commentStart.symm.trans h'.strings.commentStart)
  have hdelimiter : m.stringDelimiter = m'.stringDelimiter :=
    Option.some.inj (h.strings.stringDelimiter.symm.trans h'.strings.stringDelimiter)
  have hword : m.wordChars = m'.wordChars :=
    Option.some.inj (h.strings.wordChars.symm.trans h'.strings.wordChars)
  have hdialect : m.dialect = m'.dialect := by
    refine Dialect.ext_of ?_ fun n => ?_
    · rw [h.dialectName, h'.dialectName, hname]
    · obtain ⟨htable, hcls, hwords⟩ := h.table n
      obtain ⟨htable', hcls', hwords'⟩ := h'.table n
      exact LexemeTable.ext (htable.trans htable'.symm) (hcls.trans hcls'.symm)
        (hwords.trans hwords'.symm)
  have hfiles := h.fileExtensions.trans h'.fileExtensions.symm
  have hopen := h.blockOpen.trans h'.blockOpen.symm
  have hclose := h.blockClose.trans h'.blockClose.symm
  obtain ⟨_, _, _, _, _, _, _, _⟩ := m
  obtain ⟨_, _, _, _, _, _, _, _⟩ := m'
  simp_all

theorem mode_again (h : mode config base = .ok m) : mode config m = .ok m := by
  obtain ⟨tables, extend, entries, ht, hnodup, he, hs, hbuilt⟩ := exists_of_mode h
  obtain ⟨m', hm', hbuilt'⟩ := exists_mode ht hnodup he hs hbuilt.again.strings
  exact hm'.trans (congrArg Except.ok (hbuilt.again.unique hbuilt').symm)

inductive Reordered : Option Toml.Value → Option Toml.Value → Prop where
  | same (v : Option Toml.Value) : Reordered v v
  | table {es es' : Toml.Entries} (h : es.Perm es') :
      Reordered (some (.table es)) (some (.table es'))

/-- The two configurations agree but for the order of the entries in their sections of word
lists. -/
structure SameButOrder (config config' : Toml.Entries) : Prop where
  tables : Reordered (config.get? "tables") (config'.get? "tables")
  extend : Reordered (config.get? "extend") (config'.get? "extend")
  mode : config.get? "mode" = config'.get? "mode"

def Keyed (config : Toml.Entries) : Prop :=
  ∀ sectionName es, (sectionName, Toml.Value.table es) ∈ config → (es.map Prod.fst).Nodup

theorem entry_injective :
    Function.Injective fun e : TableName × List String => (e.1.key, wordsValue e.2) := by
  intro e e' heq
  -- either entry is read back from the one value
  have he : wordEntry "" (e.1.key, wordsValue e.2) = .ok e := wordEntry_eq_ok_iff.2 rfl
  have he' : wordEntry "" (e.1.key, wordsValue e.2) = .ok e' := wordEntry_eq_ok_iff.2 heq
  exact Except.ok.inj (he.symm.trans he')

theorem Lists.reordered {sectionName : String} (h : Lists config sectionName tables)
    (hsame : Reordered (config.get? sectionName) (config'.get? sectionName)) :
    ∃ tables', Lists config' sectionName tables' ∧ tables.Perm tables' := by
  generalize hv : config.get? sectionName = v at hsame
  generalize hv' : config'.get? sectionName = v' at hsame
  cases hsame with
  | same =>
    refine ⟨tables, ?_, .refl _⟩
    cases h with
    | absent h => exact .absent (hv'.trans (hv.symm.trans h))
    | null h => exact .null (hv'.trans (hv.symm.trans h))
    | table h => exact .table (hv'.trans (hv.symm.trans h))
  | @table es es' hp =>
    cases h with
    | absent h => simp [h] at hv
    | null h => simp [h] at hv
    | table h =>
      obtain rfl : es = tables.map fun e => (e.1.key, wordsValue e.2) := by
        simpa [h, eq_comm] using hv
      obtain ⟨tables', rfl⟩ :
          es' ∈
          Set.range (List.map fun e : TableName × List String => (e.1.key, wordsValue e.2)) := by
        rw [Set.range_list_map]
        intro x hx
        obtain ⟨e, -, rfl⟩ := List.mem_map.1 (hp.mem_iff.2 hx)
        exact ⟨e, rfl⟩
      exact ⟨tables', .table hv', (List.map_perm_map_iff entry_injective).1 hp⟩

theorem Lists.nodup_keys {sectionName : String} (h : Lists config sectionName tables)
    (hkeyed : Keyed config) :
    (tables.map Prod.fst).Nodup := by
  cases h with
  | absent => exact List.nodup_nil
  | null => exact List.nodup_nil
  | table h =>
    obtain ⟨⟨key, v⟩, hentry, rfl⟩ := Option.map_eq_some_iff.1 h
    have hkeys := hkeyed key _ (List.mem_of_find?_eq_some hentry)
    rw [List.map_map] at hkeys
    refine List.Nodup.of_map TableName.key ?_
    rw [List.map_map]
    exact hkeys

theorem listsOf_eq_of_perm (hp : tables.Perm tables') (hkeys : (tables.map Prod.fst).Nodup)
    (n : TableName) :
    listsOf n tables = listsOf n tables' := by
  have hone : (listsOf n tables).length ≤ 1 := by
    have hcount := List.nodup_iff_count_le_one.1 hkeys n
    rw [List.count, List.countP_map, List.countP_eq_length_filter] at hcount
    simpa [listsOf, Function.comp_def, Bool.beq_eq_decide_eq] using hcount
  have hsame : (listsOf n tables).Perm (listsOf n tables') := (hp.filter _).map _
  rcases Nat.le_one_iff_eq_zero_or_eq_one.1 hone with hnone | hsingle
  · rw [List.length_eq_zero_iff.1 hnone] at hsame ⊢
    exact hsame.nil_eq
  · obtain ⟨words, hwords⟩ := List.length_eq_one_iff.1 hsingle
    rw [hwords] at hsame ⊢
    exact List.singleton_perm.1 hsame

theorem Built.reordered (h : Built tables extend entries base m) (ht : tables.Perm tables')
    (he : extend.Perm extend') (htkeys : (tables.map Prod.fst).Nodup)
    (hekeys : (extend.map Prod.fst).Nodup) :
    Built tables' extend' entries base m :=
  { h with
    table := fun n => by
      have hn := h.table n
      rwa [wordsOf, listsOf_eq_of_perm ht htkeys, listsOf_eq_of_perm he hekeys, ← wordsOf] at hn
    dialectName := by
      have hnone : (tables = [] ∧ extend = []) ↔ tables' = [] ∧ extend' = [] := by
        simp only [← List.length_eq_zero_iff, ht.length_eq, he.length_eq]
      rw [h.dialectName]
      simp only [hnone] }

theorem mode_reordered (h : mode config base = .ok m) (hkeyed : Keyed config)
    (hsame : SameButOrder config config') :
    mode config' base = .ok m := by
  obtain ⟨tables, extend, entries, ht, hnodup, he, hs, hbuilt⟩ := exists_of_mode h
  obtain ⟨tables', ht', htp⟩ := ht.reordered hsame.tables
  obtain ⟨extend', he', hep⟩ := he.reordered hsame.extend
  have hs' : Settings config' entries := by
    cases hs with
    | absent h => exact .absent (hsame.mode.symm.trans h)
    | table h => exact .table (hsame.mode.symm.trans h)
  have hbuilt := hbuilt.reordered htp hep (ht.nodup_keys hkeyed) (he.nodup_keys hkeyed)
  obtain ⟨m', hm', hbuilt'⟩ :=
    exists_mode ht' (fun e hmem => hnodup e (htp.mem_iff.2 hmem)) he' hs' hbuilt.strings
  exact hm'.trans (congrArg Except.ok (hbuilt.unique hbuilt').symm)

/-- A configuration has nothing left to do on the mode that came of it, and written in another order
it makes the same mode. -/
theorem mode_stable (h : mode config base = .ok m) :
    mode config m = .ok m ∧
      ∀ config', Keyed config → SameButOrder config config' → mode config' base = .ok m :=
  ⟨mode_again h, fun _ hkeyed hsame => mode_reordered h hkeyed hsame⟩

theorem mode_stable_two_tables :
    ∃ m : Mode, m.dialect.lexemes .jokerTypes = ["b", "a", "c"] ∧
      mode
        [("tables",
          .table [("joker_types", wordsValue ["b", "a"]), ("simple_types", wordsValue ["int"])]),
        ("extend", .table [("joker_types", wordsValue ["c", "a", "c"])])] Mode.orson = .ok m ∧
      mode
        [("tables",
          .table [("joker_types", wordsValue ["b", "a"]), ("simple_types", wordsValue ["int"])]),
        ("extend", .table [("joker_types", wordsValue ["c", "a", "c"])])] m = .ok m ∧
      mode
        [("tables",
          .table [("simple_types", wordsValue ["int"]), ("joker_types", wordsValue ["b", "a"])]),
        ("extend", .table [("joker_types", wordsValue ["c", "a", "c"])])] Mode.orson = .ok m := by
  obtain ⟨m, hm, hwords⟩ : ∃ m : Mode, mode
      [("tables",
      .table [("joker_types", wordsValue ["b", "a"]), ("simple_types", wordsValue ["int"])]),
        ("extend", .table [("joker_types", wordsValue ["c", "a", "c"])])] Mode.orson = .ok m ∧
      m.dialect.lexemes .jokerTypes = ["b", "a", "c"] := ⟨_, rfl, rfl⟩
  obtain ⟨hagain, hreordered⟩ := mode_stable hm
  have hkeyed : Keyed
      [("tables",
      .table [("joker_types", wordsValue ["b", "a"]), ("simple_types", wordsValue ["int"])]),
        ("extend", .table [("joker_types", wordsValue ["c", "a", "c"])])] := by
    intro sectionName es hmem
    simp only [List.mem_cons, Prod.mk.injEq, Toml.Value.table.injEq,
      List.not_mem_nil, or_false] at hmem
    obtain ⟨-, rfl⟩ | ⟨-, rfl⟩ := hmem <;> simp
  exact ⟨m, hwords, hm, hagain, hreordered _ hkeyed ⟨.table (List.Perm.swap _ _ _), .same _, rfl⟩⟩

end Config

end OrsonHighlight
