import OrsonHighlight.Proofs.AcceptedModes
import OrsonHighlight.Proofs.DialectEdits

/-!
What configurations make of a base mode. A configuration is accepted exactly if its sections have
the right form and the settings in effect go together; the mode then has its words and settings, and
what is refused is refused for a fault that it has.
-/

set_option autoImplicit false

namespace OrsonHighlight

theorem mapM_eq_pure_iff {M : Type → Type} [Monad M] [LawfulMonad M]
    (hpure : ∀ {α : Type} {a b : α}, (pure a : M α) = pure b → a = b)
    (hbind : ∀ {α β : Type} {x : M α} {f : α → M β} {b : β}, x >>= f = pure b ↔
      ∃ a, x = pure a ∧ f a = pure b)
    {α β : Type} {f : α → M β} {g : β → α} (h : ∀ x y, f x = pure y ↔ x = g y)
    {xs : List α} {ys : List β} :
    xs.mapM f = pure ys ↔ xs = ys.map g := by
  induction xs generalizing ys with
  | nil =>
    rw [List.mapM_nil]
    constructor
    · intro hys
      rw [← hpure hys, List.map_nil]
    · intro hys
      rw [List.map_eq_nil_iff.1 hys.symm]
  | cons x xs ih =>
    rw [List.mapM_cons]
    simp only [hbind, h, ih]
    constructor
    · rintro ⟨y, rfl, ys', rfl, hys⟩
      exact congrArg (List.map g) (hpure hys)
    · intro heq
      cases ys with
      | nil => simp at heq
      | cons y ys =>
        obtain ⟨hx, hxs⟩ := List.cons.inj heq
        exact ⟨y, hx, ys, hxs, rfl⟩

theorem mapM_eq_some_iff {α β : Type} {f : α → Option β} {g : β → α}
    (h : ∀ x y, f x = some y ↔ x = g y)
    {xs : List α} {ys : List β} : xs.mapM f = some ys ↔ xs = ys.map g :=
  mapM_eq_pure_iff Option.some.inj Option.bind_eq_some_iff h

theorem mapM_eq_ok_iff {ε α β : Type} {f : α → Except ε β} {g : β → α}
    (h : ∀ x y, f x = .ok y ↔ x = g y)
    {xs : List α} {ys : List β} : xs.mapM f = .ok ys ↔ xs = ys.map g :=
  mapM_eq_pure_iff Except.ok.inj bind_eq_ok_iff h

theorem exists_of_mapM_eq_error {ε α β : Type} {f : α → Except ε β} {xs : List α} {e : ε}
    (h : xs.mapM f = .error e) : ∃ x ∈ xs, f x = .error e := by
  induction xs with
  | nil => simp [pure, Except.pure] at h
  | cons x xs ih =>
    rw [List.mapM_cons] at h
    rcases bind_eq_error_iff.1 h with hx | ⟨y, -, h⟩
    · exact ⟨x, List.mem_cons_self .., hx⟩
    · rcases bind_eq_error_iff.1 h with hxs | ⟨ys, -, h⟩
      · obtain ⟨x', hx', he⟩ := ih hxs
        exact ⟨x', List.mem_cons_of_mem x hx', he⟩
      · cases h

theorem LexemeTable.foldl_addNew_eq (words extra : List String) :
    extra.foldl addNew words = words ++ (extra.filter (· ∉ words)).eraseDups := by
  induction extra generalizing words with
  | nil => simp
  | cons w extra ih =>
    rw [List.foldl_cons, ih]
    by_cases hw : w ∈ words
    · simp [addNew, hw]
    · have hrest : extra.filter (· ∉ words ++ [w]) =
          (extra.filter (· ∉ words)).filter (!· == w) := by
        rw [List.filter_filter]
        refine List.filter_congr fun v _ => ?_
        simp [Bool.and_comm, Bool.beq_eq_decide_eq]
      have hadd : addNew words w = words ++ [w] := if_neg hw
      rw [hadd, hrest, List.filter_cons_of_pos (by simpa using hw), List.eraseDups_cons,
        List.append_assoc]
      rfl

namespace Config

def wordsValue (words : List String) : Toml.Value := .array (words.map .string)

/-- A section that is not there has no lists; one that is a table has lists of words under the names
of lexeme tables. -/
inductive Lists (config : Toml.Entries) (sectionName : String) :
    List (TableName × List String) → Prop where
  | absent (h : config.get? sectionName = none) : Lists config sectionName []
  | null (h : config.get? sectionName = some .null) : Lists config sectionName []
  | table {lists : List (TableName × List String)}
      (h : config.get? sectionName = some (.table (lists.map fun e => (e.1.key, wordsValue e.2)))) :
      Lists config sectionName lists

inductive Settings (config : Toml.Entries) : Toml.Entries → Prop where
  | absent (h : config.get? "mode" = none) : Settings config []
  | table {entries : Toml.Entries} (h : config.get? "mode" = some (.table entries)) :
      Settings config entries

theorem asString?_eq_some_iff {v : Toml.Value} {s : String} :
    asString? v = some s ↔ v = .string s := by
  cases v <;> simp [asString?]

theorem asWords?_eq_some_iff {v : Toml.Value} {words : List String} :
    asWords? v = some words ↔ v = wordsValue words := by
  cases v with
  | array items =>
    rw [asWords?, mapM_eq_some_iff fun v s => asString?_eq_some_iff]
    simp [wordsValue]
  | _ => simp [asWords?, wordsValue]

theorem ofKey?_eq_some_iff {key : String} {n : TableName} :
    TableName.ofKey? key = some n ↔ n.key = key := by
  constructor
  · exact fun h => by simpa using List.find?_some h
  · rintro rfl
    exact n.ofKey?_key

theorem wordEntry_eq_ok_iff {sectionName : String} {entry : String × Toml.Value}
    {e : TableName × List String} :
    wordEntry sectionName entry = .ok e ↔ entry = (e.1.key, wordsValue e.2) := by
  obtain ⟨key, v⟩ := entry
  obtain ⟨n, words⟩ := e
  simp only [wordEntry, Prod.mk.injEq, ← asWords?_eq_some_iff, eq_comm (a := key),
    ← ofKey?_eq_some_iff]
  cases TableName.ofKey? key <;> cases asWords? v <;> simp

theorem wordSection_eq_ok_iff {config : Toml.Entries} {sectionName : String}
    {lists : List (TableName × List String)} :
    wordSection config sectionName = .ok lists ↔ Lists config sectionName lists := by
  constructor
  · intro h
    unfold wordSection at h
    split at h
    · rename_i hnone
      exact Except.ok.inj h ▸ .absent hnone
    · rename_i hnull
      exact Except.ok.inj h ▸ .null hnull
    · rename_i entries htable
      rw [mapM_eq_ok_iff fun _ _ => wordEntry_eq_ok_iff] at h
      exact .table (h ▸ htable)
    · simp at h
  · intro h
    cases h with
    | absent h => rw [wordSection, h]
    | null h => rw [wordSection, h]
    | table h =>
      rw [wordSection, h]
      exact (mapM_eq_ok_iff fun _ _ => wordEntry_eq_ok_iff).2 rfl

theorem settings_eq_ok_iff {config entries : Toml.Entries} :
    settings config = .ok entries ↔ Settings config entries := by
  constructor
  · intro h
    unfold settings at h
    split at h
    · rename_i hnone
      exact Except.ok.inj h ▸ .absent hnone
    · rename_i entries htable
      exact Except.ok.inj h ▸ .table htable
    · simp at h
  · intro h
    cases h with
    | absent h => rw [settings, h]
    | table h => rw [settings, h]

def listsOf (n : TableName) (lists : List (TableName × List String)) : List (List String) :=
  (lists.filter (·.1 = n)).map (·.2)

/-- The words that a table is given or else had, and after them those that it is extended by and
does not have yet. -/
def wordsOf (tables extend : List (TableName × List String)) (base : List String) (n : TableName) :
    List String :=
  (listsOf n tables).getLastD base ++
    ((listsOf n extend).flatten.filter (· ∉ (listsOf n tables).getLastD base)).eraseDups

theorem listsOf_cons (n : TableName) (e : TableName × List String)
    (lists : List (TableName × List String)) :
    listsOf n (e :: lists) = if e.1 = n then e.2 :: listsOf n lists else listsOf n lists := by
  by_cases h : e.1 = n <;> simp [listsOf, h]

theorem replaceTable_of_nodup (d : Dialect) {e : TableName × List String} (h : e.2.Nodup) :
    replaceTable d e =
      .ok (d.put e.1 ⟨(d.table e.1).name, (d.table e.1).cls, e.2, h⟩ rfl) := by
  rw [replaceTable, Dialect.withTable_of_nodup d e.1 h]
  rfl

theorem exists_of_replaceTable (d : Dialect) {e : TableName × List String} (h : ¬ e.2.Nodup) :
    ∃ w, LexemeTable.IsFirstRepeat e.2 w ∧
      replaceTable d e = .error (.duplicate ⟨(d.table e.1).name, w⟩) := by
  obtain ⟨w, hfirst, hw⟩ := LexemeTable.exists_isFirstRepeat h
  refine ⟨w, hfirst, ?_⟩
  rw [replaceTable, Dialect.withTable_of_firstRepeat d e.1 hw]
  rfl

theorem foldlM_replaceTable_of_nodup (d : Dialect) {tables : List (TableName × List String)}
    (h : ∀ e ∈ tables, e.2.Nodup) :
    ∃ d', tables.foldlM replaceTable d = .ok d' ∧ d'.name = d.name ∧ d'.SameHeaders d ∧
      ∀ n, d'.lexemes n = (listsOf n tables).getLastD (d.lexemes n) := by
  induction tables generalizing d with
  | nil => exact ⟨d, rfl, rfl, .refl d, fun n => rfl⟩
  | cons e tables ih =>
    have he := replaceTable_of_nodup d (h e (List.mem_cons_self ..))
    have hput := Dialect.agreesBut_put
      (T := ⟨(d.table e.1).name, (d.table e.1).cls, e.2, h e (List.mem_cons_self ..)⟩) rfl rfl
    obtain ⟨d', hd', hname, hheaders, hlexemes⟩ :=
      ih (d.put e.1 _ _) fun e' he' => h e' (List.mem_cons_of_mem e he')
    refine ⟨d', by rw [List.foldlM_cons, he]; exact hd', hname, hheaders.trans hput.sameHeaders,
      fun n => ?_⟩
    rw [hlexemes, Dialect.lexemes_put, listsOf_cons]
    by_cases hn : e.1 = n
    · rw [if_pos hn, if_pos hn.symm, List.getLastD_cons]
    · rw [if_neg hn, if_neg (Ne.symm hn)]

theorem exists_of_foldlM_replaceTable (d : Dialect) {tables : List (TableName × List String)}
    (h : ¬ ∀ e ∈ tables, e.2.Nodup) :
    ∃ e ∈ tables, ∃ w, LexemeTable.IsFirstRepeat e.2 w ∧
      tables.foldlM replaceTable d = .error (.duplicate ⟨(d.table e.1).name, w⟩) := by
  induction tables generalizing d with
  | nil => simp at h
  | cons e tables ih =>
    rw [List.foldlM_cons]
    by_cases he : e.2.Nodup
    · have hrest : ¬ ∀ e' ∈ tables, e'.2.Nodup :=
        fun hall => h (List.forall_mem_cons.2 ⟨he, hall⟩)
      have hput := Dialect.agreesBut_put
        (T := ⟨(d.table e.1).name, (d.table e.1).cls, e.2, he⟩) rfl rfl
      rw [replaceTable_of_nodup d he]
      obtain ⟨e', he', w, hfirst, hw⟩ := ih (d.put e.1 _ _) hrest
      rw [(hput.sameHeaders e'.1).1] at hw
      exact ⟨e', List.mem_cons_of_mem e he', w, hfirst, hw⟩
    · obtain ⟨w, hfirst, hw⟩ := exists_of_replaceTable d he
      rw [hw]
      exact ⟨e, List.mem_cons_self .., w, hfirst, rfl⟩

theorem nodup_of_foldlM_replaceTable {d d' : Dialect} {tables : List (TableName × List String)}
    (h : tables.foldlM replaceTable d = .ok d') : ∀ e ∈ tables, e.2.Nodup := by
  by_contra hno
  obtain ⟨e, -, w, -, hw⟩ := exists_of_foldlM_replaceTable d hno
  cases h.symm.trans hw

theorem lexemes_foldl_extendTable (d : Dialect) (extend : List (TableName × List String))
    (n : TableName) : (extend.foldl extendTable d).lexemes n =
      (listsOf n extend).flatten.foldl LexemeTable.addNew (d.lexemes n) := by
  induction extend generalizing d with
  | nil => rfl
  | cons e extend ih =>
    rw [List.foldl_cons, ih, extendTable, Dialect.lexemes_withExtra, listsOf_cons]
    by_cases hn : e.1 = n
    · rw [if_pos hn, if_pos hn.symm, List.flatten_cons, List.foldl_append, hn]
    · rw [if_neg hn, if_neg (Ne.symm hn)]

theorem sameHeaders_foldl_extendTable (d : Dialect) (extend : List (TableName × List String)) :
    (extend.foldl extendTable d).SameHeaders d := by
  induction extend generalizing d with
  | nil => exact .refl d
  | cons e extend ih =>
    exact (ih (extendTable d e)).trans (Dialect.agreesBut_withExtra d e.1 e.2).sameHeaders

theorem name_foldl_extendTable (d : Dialect) (extend : List (TableName × List String)) :
    (extend.foldl extendTable d).name = d.name := by
  induction extend generalizing d with
  | nil => rfl
  | cons e extend ih => exact ih (extendTable d e)

/-- The mode that the lists and settings of a configuration make of a base: its tables are those of
the base with their words replaced and extended, its dialect takes its name if there is any list,
its strings pass every check, and all else is the base's. -/
structure Built (tables extend : List (TableName × List String)) (entries : Toml.Entries)
    (base m : Mode) : Prop where
  table : ∀ n, (m.dialect.table n).name = (base.dialect.table n).name ∧
    (m.dialect.table n).cls = (base.dialect.table n).cls ∧
    (m.dialect.table n).lexemes = wordsOf tables extend (base.dialect.table n).lexemes n
  dialectName : m.dialect.name = if tables = [] ∧ extend = [] then base.dialect.name else m.name
  strings : Strings.Accepted entries base ⟨m.name, m.commentStart, m.stringDelimiter, m.wordChars⟩
  fileExtensions : m.fileExtensions = base.fileExtensions
  blockOpen : m.blockOpen = base.blockOpen
  blockClose : m.blockClose = base.blockClose

variable {config entries : Toml.Entries} {base m : Mode}
    {tables extend : List (TableName × List String)} {s : Strings}

theorem exists_dialect (ht : Lists config "tables" tables) (hnodup : ∀ e ∈ tables, e.2.Nodup)
    (he : Lists config "extend" extend) (base : Dialect) :
    ∃ d, dialect config base = .ok (d, !tables.isEmpty || !extend.isEmpty) ∧ d.name = base.name ∧
      d.SameHeaders base ∧ ∀ n, d.lexemes n = wordsOf tables extend (base.lexemes n) n := by
  obtain ⟨d, hd, hname, hheaders, hlexemes⟩ := foldlM_replaceTable_of_nodup base hnodup
  refine ⟨extend.foldl extendTable d, ?_, (name_foldl_extendTable d extend).trans hname,
    (sameHeaders_foldl_extendTable d extend).trans hheaders, fun n => ?_⟩
  · simp only [dialect, wordSection_eq_ok_iff.2 ht, wordSection_eq_ok_iff.2 he, hd, bind,
      Except.bind, pure, Except.pure]
  · rw [lexemes_foldl_extendTable, hlexemes, LexemeTable.foldl_addNew_eq, wordsOf]

theorem exists_mode (ht : Lists config "tables" tables) (hnodup : ∀ e ∈ tables, e.2.Nodup)
    (he : Lists config "extend" extend) (hs : Settings config entries)
    (hstrings : s.Accepted entries base) :
    ∃ m, mode config base = .ok m ∧ Built tables extend entries base m := by
  obtain ⟨d, hd, hname, hheaders, hlexemes⟩ := exists_dialect ht hnodup he base.dialect
  refine ⟨_, bind_eq_ok_iff.2 ⟨_, hd, bind_eq_ok_iff.2 ⟨_, settings_eq_ok_iff.2 hs,
    bind_eq_ok_iff.2 ⟨_, strings_eq_ok_iff.2 hstrings, rfl⟩⟩⟩, ?_, ?_, hstrings, rfl, rfl, rfl⟩
  · intro n
    by_cases hnone : (!tables.isEmpty || !extend.isEmpty) = true
    · simp only [if_pos hnone]
      exact ⟨(hheaders n).1, (hheaders n).2, hlexemes n⟩
    · simp only [if_neg hnone]
      exact ⟨(hheaders n).1, (hheaders n).2, hlexemes n⟩
  · by_cases hnone : (!tables.isEmpty || !extend.isEmpty) = true
    · have hany : ¬ (tables = [] ∧ extend = []) := by
        simpa [Decidable.imp_iff_not_or] using hnone
      simp only [if_pos hnone, if_neg hany]
      rfl
    · have hno : tables = [] ∧ extend = [] := by simpa using hnone
      simp only [if_neg hnone, if_pos hno, hname]

theorem exists_of_mode (h : mode config base = .ok m) :
    ∃ tables extend entries, Lists config "tables" tables ∧ (∀ e ∈ tables, e.2.Nodup) ∧
      Lists config "extend" extend ∧
      Settings config entries ∧ Built tables extend entries base m := by
  obtain ⟨x, hdialect, hrest⟩ := bind_eq_ok_iff.1 h
  obtain ⟨tables, ht, hdialect⟩ := bind_eq_ok_iff.1 hdialect
  obtain ⟨d, hd, hdialect⟩ := bind_eq_ok_iff.1 hdialect
  obtain ⟨extend, he, -⟩ := bind_eq_ok_iff.1 hdialect
  obtain ⟨entries, hs, hrest⟩ := bind_eq_ok_iff.1 hrest
  obtain ⟨s, hstrings, -⟩ := bind_eq_ok_iff.1 hrest
  rw [wordSection_eq_ok_iff] at ht he
  rw [settings_eq_ok_iff] at hs
  have hnodup := nodup_of_foldlM_replaceTable hd
  obtain ⟨m', hm', hbuilt⟩ := exists_mode ht hnodup he hs (strings_eq_ok_iff.1 hstrings)
  obtain rfl := Except.ok.inj (h.symm.trans hm')
  exact ⟨tables, extend, entries, ht, hnodup, he, hs, hbuilt⟩

inductive Fault.InSection (config : Toml.Entries) (sectionName : String) : Fault → Prop where
  | notATable {v : Toml.Value} (h : config.get? sectionName = some v) (hnull : v ≠ .null)
      (htable : ∀ es, v ≠ .table es) : InSection config sectionName (.notATable sectionName)
  | unknownTable {es : Toml.Entries} {key : String} {v : Toml.Value}
      (h : config.get? sectionName = some (.table es))
      (hmem : (key, v) ∈ es) (hkey : ∀ n : TableName, n.key ≠ key) :
      InSection config sectionName (.unknownTable sectionName key)
  | notWords {es : Toml.Entries} {key : String} {v : Toml.Value}
      (h : config.get? sectionName = some (.table es))
      (hmem : (key, v) ∈ es) (hwords : ∀ ws, v ≠ wordsValue ws) :
      InSection config sectionName (.notWords sectionName key)

inductive Fault.InStrings (entries : Toml.Entries) (base : Mode) : Fault → Prop where
  | badName (h : ∀ s, setting entries "name" base.name = some s → s = "") :
      InStrings entries base .badName
  | badCommentStart (h : ∀ s, setting entries "comment_start" base.commentStart = some s →
      s.length ≠ 1) :
      InStrings entries base .badCommentStart
  | badDelimiter
      (h : ∀ s, setting entries "string_delimiter" base.stringDelimiter = some s → s = "") :
      InStrings entries base .badDelimiter
  | commentInDelimiter {comment delimiter : String} {ch : Char}
      (hcomment : setting entries "comment_start" base.commentStart = some comment)
      (hdelimiter : setting entries "string_delimiter" base.stringDelimiter = some delimiter)
      (hch : ch ∈ comment.toList) (hmem : ch ∈ delimiter.toList) :
      InStrings entries base .commentInDelimiter
  | badWordChars (h : setting entries "word_chars" base.wordChars = none) :
      InStrings entries base .badWordChars
  | wordCharsClash {comment delimiter wordChars : String} {ch : Char}
      (hcomment : setting entries "comment_start" base.commentStart = some comment)
      (hdelimiter : setting entries "string_delimiter" base.stringDelimiter = some delimiter)
      (hword : setting entries "word_chars" base.wordChars = some wordChars)
      (hch : ch ∈ comment.toList ++ delimiter.toList.take 1) (hmem : ch ∈ wordChars.toList) :
      InStrings entries base .wordCharsClash

inductive Fault.IsOf (config : Toml.Entries) (base : Mode) : Fault → Prop where
  | tables {fault : Fault} (h : fault.InSection config "tables") : IsOf config base fault
  | extend {fault : Fault} (h : fault.InSection config "extend") : IsOf config base fault
  | duplicate {lists : List (TableName × List String)} {e : TableName × List String} {w : String}
      (h : Lists config "tables" lists) (he : e ∈ lists) (hw : LexemeTable.IsFirstRepeat e.2 w) :
      IsOf config base (.duplicate ⟨(base.dialect.table e.1).name, w⟩)
  | mode {v : Toml.Value} (h : config.get? "mode" = some v) (htable : ∀ es, v ≠ .table es) :
      IsOf config base (.notATable "mode")
  | strings {entries : Toml.Entries} {fault : Fault} (h : Settings config entries)
      (hf : fault.InStrings entries base) :
      IsOf config base fault

variable {fault : Fault}

theorem inSection_of_wordSection {sectionName : String}
    (h : wordSection config sectionName = .error fault) :
    fault.InSection config sectionName := by
  unfold wordSection at h
  split at h
  · cases h
  · cases h
  · rename_i es htable
    obtain ⟨⟨key, v⟩, hmem, he⟩ := exists_of_mapM_eq_error h
    simp only [wordEntry] at he
    split at he
    · rename_i hnone
      obtain rfl := Except.error.inj he
      refine .unknownTable htable hmem fun n hn => ?_
      simp [ofKey?_eq_some_iff.2 hn] at hnone
    · split at he
      · rename_i hnone
        obtain rfl := Except.error.inj he
        refine .notWords htable hmem fun ws hws => ?_
        simp [asWords?_eq_some_iff.2 hws] at hnone
      · cases he
  · rename_i v hnull htable hv
    obtain rfl := Except.error.inj h
    exact .notATable hv hnull htable

theorem rejects_of_stringOr {fault e : Fault} {accept : String → Bool} {value : Option String}
    (h : stringOr fault accept value = .error e) :
    e = fault ∧ ∀ s, value = some s → accept s = false := by
  unfold stringOr at h
  split at h
  · rename_i s
    split at h
    · cases h
    · rename_i hs
      refine ⟨(Except.error.inj h).symm, fun s' hs' => ?_⟩
      obtain rfl := Option.some.inj hs'
      simpa using hs
  · exact ⟨(Except.error.inj h).symm, fun s hs => by simp at hs⟩

theorem check_eq_error_iff {β : Type} {b : Bool} {fault e : Fault} {rest : Unit → Except Fault β} :
    (if b = true then throw fault >>= rest else rest ()) = .error e ↔
      b = true ∧ e = fault ∨ b = false ∧ rest () = .error e := by
  cases b with
  | false => simp
  | true =>
    constructor
    · exact fun h => .inl ⟨rfl, (Except.error.inj h).symm⟩
    · rintro (⟨-, rfl⟩ | ⟨h, -⟩)
      · rfl
      · cases h

theorem inStrings_of_strings (h : strings entries base = .error fault) :
    fault.InStrings entries base := by
  rcases bind_eq_error_iff.1 h with h | ⟨name, -, h⟩
  · obtain ⟨rfl, hno⟩ := rejects_of_stringOr h
    exact .badName fun s hs => by simpa using hno s hs
  rcases bind_eq_error_iff.1 h with h | ⟨comment, hcomment, h⟩
  · obtain ⟨rfl, hno⟩ := rejects_of_stringOr h
    exact .badCommentStart fun s hs => by simpa using hno s hs
  rcases bind_eq_error_iff.1 h with h | ⟨delimiter, hdelimiter, h⟩
  · obtain ⟨rfl, hno⟩ := rejects_of_stringOr h
    exact .badDelimiter fun s hs => by simpa using hno s hs
  have hcomment := (stringOr_eq_ok_iff.1 hcomment).1
  have hdelimiter := (stringOr_eq_ok_iff.1 hdelimiter).1
  rcases check_eq_error_iff.1 h with ⟨hclash, rfl⟩ | ⟨-, h⟩
  · obtain ⟨ch, hch, hmem⟩ := List.any_eq_true.1 hclash
    exact .commentInDelimiter hcomment hdelimiter hch (by simpa using hmem)
  rcases bind_eq_error_iff.1 h with h | ⟨wordChars, hword, h⟩
  · obtain ⟨rfl, hno⟩ := rejects_of_stringOr h
    exact .badWordChars (Option.eq_none_iff_forall_ne_some.2 fun s hs => by simpa using hno s hs)
  rcases check_eq_error_iff.1 h with ⟨hclash, rfl⟩ | ⟨-, h⟩
  · obtain ⟨ch, hch, hmem⟩ := List.any_eq_true.1 hclash
    exact .wordCharsClash hcomment hdelimiter (stringOr_eq_ok_iff.1 hword).1 hch
      (by simpa using hmem)
  · cases h

theorem isOf_of_mode (h : mode config base = .error fault) : fault.IsOf config base := by
  rcases bind_eq_error_iff.1 h with h | ⟨x, -, h⟩
  · rcases bind_eq_error_iff.1 h with h | ⟨tables, ht, h⟩
    · exact .tables (inSection_of_wordSection h)
    rcases bind_eq_error_iff.1 h with h | ⟨d, -, h⟩
    · by_cases hnodup : ∀ e ∈ tables, e.2.Nodup
      · obtain ⟨d, hd, -⟩ := foldlM_replaceTable_of_nodup base.dialect hnodup
        cases hd.symm.trans h
      · obtain ⟨e, he, w, hw, herror⟩ := exists_of_foldlM_replaceTable base.dialect hnodup
        obtain rfl := Except.error.inj (herror.symm.trans h)
        exact .duplicate (wordSection_eq_ok_iff.1 ht) he hw
    rcases bind_eq_error_iff.1 h with h | ⟨extend, -, h⟩
    · exact .extend (inSection_of_wordSection h)
    · cases h
  rcases bind_eq_error_iff.1 h with h | ⟨entries, hs, h⟩
  · unfold settings at h
    split at h
    · cases h
    · cases h
    · rename_i v htable hv
      obtain rfl := Except.error.inj h
      exact .mode hv htable
  rcases bind_eq_error_iff.1 h with h | ⟨s, -, h⟩
  · exact .strings (settings_eq_ok_iff.1 hs) (inStrings_of_strings h)
  · cases h

/-- The sections of word lists have their form, no table is given a word twice, and the settings in
effect, each configured or that of the base, go together. -/
structure Valid (config : Toml.Entries) (base : Mode) : Prop where
  tables : ∃ tables, Lists config "tables" tables ∧ ∀ e ∈ tables, e.2.Nodup
  extend : ∃ extend, Lists config "extend" extend
  mode : ∃ entries s, Settings config entries ∧ Strings.Accepted entries base s

/-- A mode comes of exactly the valid configurations, and it is the one that they describe; any
other is refused for a fault that it has. -/
theorem mode_answers (config : Toml.Entries) (base : Mode) :
    ((∃ m, mode config base = .ok m) ↔ Valid config base) ∧
      ((∃ m tables extend entries, mode config base = .ok m ∧ Lists config "tables" tables ∧
          Lists config "extend" extend ∧ Settings config entries ∧
            Built tables extend entries base m) ∨
        ∃ fault, mode config base = .error fault ∧ fault.IsOf config base) := by
  refine ⟨⟨?_, ?_⟩, ?_⟩
  · rintro ⟨m, hm⟩
    obtain ⟨tables, extend, entries, ht, hnodup, he, hs, hbuilt⟩ := exists_of_mode hm
    exact ⟨⟨tables, ht, hnodup⟩, ⟨extend, he⟩, entries, _, hs, hbuilt.strings⟩
  · rintro ⟨⟨tables, ht, hnodup⟩, ⟨extend, he⟩, entries, s, hs, hstrings⟩
    obtain ⟨m, hm, -⟩ := exists_mode ht hnodup he hs hstrings
    exact ⟨m, hm⟩
  · cases hm : mode config base with
    | error fault => exact .inr ⟨fault, rfl, isOf_of_mode hm⟩
    | ok m =>
      obtain ⟨tables, extend, entries, ht, -, he, hs, hbuilt⟩ := exists_of_mode hm
      exact .inl ⟨m, tables, extend, entries, rfl, ht, he, hs, hbuilt⟩

example : wordsOf [(.jokerTypes, ["b", "a"])] [(.jokerTypes, ["c", "a", "c"])] ["x"] .jokerTypes =
    ["b", "a", "c"] := by
  decide +kernel

end Config

end OrsonHighlight
