import OrsonHighlight.Token
import OrsonHighlight.Text.Quoted

set_option autoImplicit false

namespace OrsonHighlight

@[ext]
structure LexemeTable where
  name : String
  cls : TokenClass
  lexemes : List String
  distinct : lexemes.Nodup
  deriving DecidableEq

structure DuplicateLexeme where
  table : String
  lexeme : String
  deriving DecidableEq, Repr

def tableReport (message table lexeme : String) : String :=
  "error: " ++ message ++ "\n  in table " ++ table ++ ": " ++ Quoted.encodeString lexeme

namespace DuplicateLexeme

def message : String := "duplicate lexeme"

def report (e : DuplicateLexeme) : String := tableReport message e.table e.lexeme

end DuplicateLexeme

namespace LexemeTable

/-- The first word that equals an earlier one, where `seen` came before. -/
def firstRepeat (seen : List String) : List String → Option String
  | [] => none
  | w :: rest => if w ∈ seen then some w else firstRepeat (w :: seen) rest

theorem nodup_of_firstRepeat {seen words : List String} (h : firstRepeat seen words = none) :
    words.Nodup ∧ ∀ w ∈ words, w ∉ seen := by
  induction words generalizing seen with
  | nil => simp
  | cons w rest ih =>
    simp only [firstRepeat] at h
    split at h
    · simp at h
    · obtain ⟨hn, hs⟩ := ih h
      refine ⟨List.nodup_cons.2 ⟨fun hw => hs w hw (by simp), hn⟩, fun v hv => ?_⟩
      rcases List.mem_cons.1 hv with rfl | hv
      · assumption
      · exact fun hm => hs v hv (List.mem_cons_of_mem w hm)

def ofWords (name : String) (cls : TokenClass) (words : List String) :
    Except DuplicateLexeme LexemeTable :=
  match h : firstRepeat [] words with
  | some w => .error ⟨name, w⟩
  | none => .ok ⟨name, cls, words, (nodup_of_firstRepeat h).1⟩

theorem cls_of_ofWords {name : String} {cls : TokenClass} {words : List String} {t : LexemeTable}
    (h : ofWords name cls words = .ok t) : t.cls = cls := by
  unfold ofWords at h
  split at h
  · cases h
  · cases h
    rfl

def addNew (words : List String) (w : String) : List String :=
  if w ∈ words then words else words ++ [w]

theorem nodup_addNew {words : List String} (w : String) (h : words.Nodup) :
    (addNew words w).Nodup := by
  unfold addNew
  split
  · exact h
  · simp_all [List.nodup_append]
    intro a ha hw; subst hw; contradiction

theorem nodup_foldl_addNew {words : List String} (extra : List String) (h : words.Nodup) :
    (extra.foldl addNew words).Nodup := by
  induction extra generalizing words with
  | nil => exact h
  | cons w rest ih => exact ih (nodup_addNew w h)

/-- With the words of `extra` after its own, skipping those it has. -/
def extended (t : LexemeTable) (extra : List String) : LexemeTable :=
  ⟨t.name, t.cls, extra.foldl addNew t.lexemes, nodup_foldl_addNew extra t.distinct⟩

@[simp] theorem extended_nil (t : LexemeTable) : t.extended [] = t := rfl

def contains (t : LexemeTable) (w : String) : Bool := t.lexemes.contains w

def size (t : LexemeTable) : Nat := t.lexemes.length

/-- Longer words first, words of one length by code points. -/
def precedes (v w : String) : Bool := w.length < v.length || (v.length == w.length && v < w)

def insertLexeme (w : String) : List String → List String
  | [] => [w]
  | v :: rest => if precedes v w then v :: insertLexeme w rest else w :: v :: rest

def longestFirst (t : LexemeTable) : List String := t.lexemes.foldr insertLexeme []

end LexemeTable

end OrsonHighlight
