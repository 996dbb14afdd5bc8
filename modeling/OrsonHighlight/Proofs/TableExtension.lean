import OrsonHighlight.Proofs.LongestLexemes
import OrsonHighlight.Proofs.Reconfiguration

set_option autoImplicit false

namespace OrsonHighlight

namespace LexemeTable

/-- The new words stand as they would in a table that had none before, less those that are there. -/
theorem foldl_addNew_eq_append_filter (words extra : List String) :
    extra.foldl addNew words = words ++ (extra.foldl addNew []).filter (· ∉ words) := by
  induction extra using List.reverseRecOn with
  | nil => simp
  | append_singleton extra x ih =>
    simp only [List.foldl_append, List.foldl_cons, List.foldl_nil]
    by_cases hold : x ∈ extra.foldl addNew []
    · have hthere : x ∈ extra.foldl addNew words := by
        have hmem : x ∈ extra := by simpa [mem_foldl_addNew] using hold
        exact mem_foldl_addNew.2 (.inr hmem)
      rw [addNew, if_pos hthere, addNew, if_pos hold, ih]
    · have hmem : x ∉ extra := by simpa [mem_foldl_addNew] using hold
      rw [addNew.eq_1 (extra.foldl addNew []), if_neg hold, List.filter_append,
        ← List.append_assoc, ← ih]
      by_cases hx : x ∈ words
      · simp [addNew, mem_foldl_addNew, hx]
      · simp [addNew, mem_foldl_addNew, hx, hmem]

/-- The table with the words of `extra` that it does not have behind its own, each once and where it
first comes. -/
structure OrderedUnion (t : LexemeTable) (extra : List String) (u : LexemeTable) : Prop where
  accepted : ofWords t.name t.cls u.lexemes = .ok u
  name : u.name = t.name
  cls : u.cls = t.cls
  lexemes : ∃ new, u.lexemes = t.lexemes ++ new ∧ (∀ w, w ∈ new ↔ w ∈ extra ∧ w ∉ t.lexemes) ∧
    new.Pairwise fun v w => extra.idxOf v < extra.idxOf w
  nodup : u.lexemes.Nodup
  contains : ∀ w, u.contains w = true ↔ t.contains w = true ∨ w ∈ extra

theorem orderedUnion_extended (t : LexemeTable) (extra : List String) :
    t.OrderedUnion extra (t.extended extra) where
  accepted := ofWords_of_nodup t.name t.cls (t.extended extra).distinct
  name := rfl
  cls := rfl
  lexemes := by
    refine ⟨_, foldl_addNew_eq_append_filter t.lexemes extra, fun w => ?_, ?_⟩
    · simp [mem_foldl_addNew]
    · exact (pairwise_idxOf_foldl_addNew extra).filter _
  nodup := (t.extended extra).distinct
  contains w := by simp [LexemeTable.contains, extended, mem_foldl_addNew]

theorem extended_extended (t : LexemeTable) (a b : List String) :
    (t.extended a).extended b = t.extended (a ++ b) := by
  simp [extended, List.foldl_append]

theorem extended_of_subset {t : LexemeTable} {extra : List String}
    (h : ∀ w ∈ extra, w ∈ t.lexemes) :
    t.extended extra = t := by
  simp [extended, Config.foldl_addNew_of_subset h]

theorem words_extended (t : LexemeTable) (extra : List String) :
    (t.extended extra).words = t.words ∪ {w | w ∈ extra ∧ w ≠ ""} := by
  ext w
  simp only [words, extended, mem_foldl_addNew, Set.mem_ofPred_eq, Set.mem_union]
  tauto

theorem extended_unites (t : LexemeTable) (a b : List String) :
    t.OrderedUnion a (t.extended a) ∧ (t.extended a).extended b = t.extended (a ++ b) ∧
    (t.extended a).extended a = t.extended a ∧
    ∀ (wordChars : String) (text : Text) (start stop : Int),
      (((t.extended a).extended b).compile wordChars).scan text start stop =
        (((t.extended b).extended a).compile wordChars).scan text start stop := by
  refine ⟨t.orderedUnion_extended a, t.extended_extended a b, ?_,
    fun wordChars text start stop => ?_⟩
  · exact extended_of_subset fun w hw => mem_foldl_addNew.2 (.inr hw)
  · have hwords : ((t.extended a).extended b).words = ((t.extended b).extended a).words := by
      rw [words_extended, words_extended, words_extended, words_extended, Set.union_right_comm]
    have hscan := ((t.extended a).extended b).leftmostLongest_scan wordChars text start stop
    rw [hwords] at hscan
    exact hscan.unique (((t.extended b).extended a).leftmostLongest_scan wordChars text start stop)

example :
    ((⟨"t", .plainName, ["b"], by decide⟩ : LexemeTable).extended ["c", "b", "a", "c"]).lexemes =
      ["b", "c", "a"] := by decide

end LexemeTable

end OrsonHighlight
