import OrsonHighlight.Lexeme.PatternSource
import OrsonHighlight.Proofs.Matches

/-!
Patterns as regular expressions. A table's pattern is written as an expression, and the expression,
read by the rules of regular expressions, finds what the pattern finds. In particular the classes of
characters that are written into the guards hold exactly the characters that continue a name or an
operator.
-/

set_option autoImplicit false

namespace OrsonHighlight

namespace Regex

inductive Item where
  | char (c : Char)
  | word
  | nonWord
  deriving DecidableEq, Repr

namespace Item

def holds (c : Char) : Item → Bool
  | char d => c == d
  | word => Unicode.isAlphanumeric c || c == '_'
  | nonWord => !(Unicode.isAlphanumeric c || c == '_')

def write : Item → List Char
  | char d => PatternSource.escape d
  | word => ['\\', 'w']
  | nonWord => ['\\', 'W']

end Item

/-- A class of characters: an item, or a set in brackets, which is never empty, or what such a set
leaves out. -/
inductive Class where
  | item (i : Item)
  | among (first : Item) (rest : List Item)
  | outside (first : Item) (rest : List Item)
  deriving DecidableEq, Repr

namespace Class

def holds (c : Char) : Class → Bool
  | item i => i.holds c
  | among i rest => (i :: rest).any (·.holds c)
  | outside i rest => !(i :: rest).any (·.holds c)

def write : Class → List Char
  | item i => i.write
  | among i rest => '[' :: ((i :: rest).flatMap Item.write ++ [']'])
  | outside i rest => '[' :: '^' :: ((i :: rest).flatMap Item.write ++ [']'])

end Class

/-- A character, or a test that takes up no text: that the neighbour is in none of the classes, or
one that always fails. -/
inductive Piece where
  | char (c : Char)
  | notLeft (classes : List Class)
  | notRight (classes : List Class)
  | never
  deriving DecidableEq, Repr

def touched (classes : List Class) (neighbour : Option Char) : Bool :=
  neighbour.any fun c => classes.any (·.holds c)

namespace Piece

def end? (t : Text) (p : Nat) : Piece → Option Nat
  | char c => if t[p]? = some c then some (p + 1) else none
  | notLeft classes => if p = 0 ∨ touched classes t[p - 1]? = false then some p else none
  | notRight classes => if touched classes t[p]? = false then some p else none
  | never => none

def write : Piece → List Char
  | char c => PatternSource.escape c
  | notLeft classes => "(?<!".toList ++ PatternSource.alternation (classes.map Class.write) ++ [')']
  | notRight classes => "(?!".toList ++ PatternSource.alternation (classes.map Class.write) ++ [')']
  | never => "(?!)".toList

end Piece

def branchEnd? (t : Text) : Nat → List Piece → Option Nat
  | p, [] => some p
  | p, x :: rest => (x.end? t p).bind (branchEnd? t · rest)

end Regex

/-- Alternatives of which the first that matches is taken. -/
structure Regex where
  branches : List (List Regex.Piece)
  deriving DecidableEq, Repr

namespace Regex

def end? (r : Regex) (t : Text) (p : Nat) : Option Nat := r.branches.findSome? (branchEnd? t p)

def write (r : Regex) : String :=
  String.ofList (PatternSource.alternation (r.branches.map (·.flatMap Piece.write)))

def findAll (r : Regex) (t : Text) (a b : Nat) : List (Nat × Nat) :=
  Text.sweep (fun p => (r.end? t p).map fun q => ((p, q), q)) a (min b t.size)

/-- What is no non-word character and no underscore. -/
def alphanumeric : Class := .outside .nonWord [.char '_']

/-- The underscore alone has a short form, and a set is written only where there is something in
it. -/
def wordClasses (wordChars : List Char) : List Class :=
  if wordChars = ['_'] then [.item .word]
  else match PatternSource.sortedSet wordChars with
    | [] => [alphanumeric]
    | c :: extra => [alphanumeric, .among (.char c) (extra.map .char)]

def symbolClasses? (wordChars : List Char) : Option (List Class) :=
  match symbolChars.filter (!wordChars.contains ·) with
  | [] => none
  | c :: others => some [.among (.char c) (others.map .char)]

def guard? (wordChars : List Char) (c : Char) : Option (List Class) :=
  if isWordChar wordChars c then some (wordClasses wordChars)
  else if isSymbolChar c then symbolClasses? wordChars
  else none

def ofLexeme (wordChars : List Char) (g : GuardedLexeme) : List Piece :=
  ((guard? wordChars g.first).map .notLeft).toList ++ g.chars.map .char ++
    ((guard? wordChars (g.chars.getLast g.chars_ne_nil)).map .notRight).toList

def ofPattern (pat : Pattern) : Regex :=
  match pat.alternatives with
  | [] => ⟨[[.never]]⟩
  | gs => ⟨gs.map (ofLexeme pat.wordChars)⟩

section Classes

variable {wordChars : List Char} {c : Char}

theorem holds_alphanumeric (c : Char) : alphanumeric.holds c = Unicode.isAlphanumeric c := by
  have hunderscore : Unicode.isAlphanumeric '_' = false := by decide +kernel
  by_cases hc : c = '_'
  · simp [alphanumeric, Class.holds, Item.holds, hc, hunderscore]
  · have hne : (c == '_') = false := beq_false_of_ne hc
    simp [alphanumeric, Class.holds, Item.holds, hne]

theorem any_holds_char (c : Char) (cs : List Char) :
    (cs.map Item.char).any (·.holds c) = cs.contains c := by
  induction cs with
  | nil => rfl
  | cons d cs ih => rw [List.map_cons, List.any_cons, ih, List.contains_cons, Item.holds]

theorem mem_insertChar {d : Char} {cs : List Char} :
    c ∈ PatternSource.insertChar d cs ↔ c = d ∨ c ∈ cs := by
  fun_induction PatternSource.insertChar d cs with
  | case1 => simp
  | case2 rest => simp
  | case3 e rest hne hlt => simp
  | case4 e rest hne hlt ih =>
    simp only [List.mem_cons, ih]
    tauto

theorem mem_sortedSet : c ∈ PatternSource.sortedSet wordChars ↔ c ∈ wordChars := by
  induction wordChars with
  | nil => rfl
  | cons d cs ih =>
    rw [List.mem_cons, ← ih]
    exact mem_insertChar

theorem any_wordClasses (wordChars : List Char) (c : Char) :
    (wordClasses wordChars).any (·.holds c) = isWordChar wordChars c := by
  unfold wordClasses isWordChar
  split
  · rename_i hshort
    simp [Class.holds, Item.holds, hshort, Bool.beq_eq_decide_eq]
  · split
    · rename_i hempty
      have hnone : c ∉ wordChars := by simp [← mem_sortedSet, hempty]
      simp [holds_alphanumeric, hnone]
    · rename_i d extra hset
      have hmem : (d :: extra).contains c = wordChars.contains c := by
        rw [Bool.eq_iff_iff, List.contains_iff_mem, List.contains_iff_mem, ← hset, mem_sortedSet]
      have hamong : (Class.among (.char d) (extra.map .char)).holds c = wordChars.contains c := by
        rw [Class.holds, ← List.map_cons, any_holds_char, hmem]
      simp [holds_alphanumeric, hamong]

theorem any_symbolClasses {classes : List Class}
    (h : symbolClasses? wordChars = some classes) (c : Char) :
    classes.any (·.holds c) = (isSymbolChar c && !wordChars.contains c) := by
  unfold symbolClasses? at h
  split at h
  · simp at h
  · rename_i d others hfilter
    obtain rfl := Option.some.inj h
    rw [List.any_cons, List.any_nil, Bool.or_false, Class.holds, ← List.map_cons,
      any_holds_char, ← hfilter, Bool.eq_iff_iff]
    simp [isSymbolChar, List.mem_filter]

theorem exists_symbolClasses (hw : isWordChar wordChars c = false) (hs : isSymbolChar c = true) :
    ∃ classes, symbolClasses? wordChars = some classes := by
  have hmem : c ∈ symbolChars.filter (!wordChars.contains ·) := by
    simp only [isWordChar, Bool.or_eq_false_iff] at hw
    rw [List.mem_filter, hw.2]
    exact ⟨List.contains_iff_mem.1 hs, rfl⟩
  unfold symbolClasses?
  split
  · rename_i hempty
    exact absurd (hempty ▸ hmem) (List.not_mem_nil)
  · exact ⟨_, rfl⟩

/-- The written guard of an edge bars what the edge bars, and where none is written nothing is
barred. -/
theorem admits_eq_not_touched (wordChars : List Char) (c : Char) (neighbour : Option Char) :
    (Edge.ofChar wordChars c).admits wordChars neighbour =
      !(guard? wordChars c).any (touched · neighbour) := by
  unfold guard? Edge.ofChar
  cases neighbour with
  | none =>
    rw [Edge.admits_none, eq_comm, Bool.not_eq_true', Option.any_eq_false]
    exact fun classes _ => rfl
  | some d =>
    by_cases hw : isWordChar wordChars c = true
    · simp only [if_pos hw, Option.any_some, touched, any_wordClasses, Edge.admits, Edge.bars]
    · by_cases hs : isSymbolChar c = true
      · obtain ⟨classes, hclasses⟩ := exists_symbolClasses (Bool.eq_false_iff.2 hw) hs
        simp only [if_neg hw, if_pos hs, hclasses, Option.any_some, touched,
          any_symbolClasses hclasses, Edge.admits, Edge.bars]
      · simp [hw, hs, Edge.admits, Edge.bars]

end Classes

section Ends

variable {wordChars : List Char} {t : Text} {p : Nat}

theorem branchEnd?_append (xs ys : List Piece) :
    branchEnd? t p (xs ++ ys) = (branchEnd? t p xs).bind (branchEnd? t · ys) := by
  induction xs generalizing p with
  | nil => rfl
  | cons x xs ih => simp [branchEnd?, ih, Option.bind_assoc]

theorem branchEnd?_chars (cs : List Char) :
    branchEnd? t p (cs.map .char) = if t.occursAt p cs then some (p + cs.length) else none := by
  induction cs generalizing p with
  | nil => rfl
  | cons c cs ih =>
    by_cases hc : t[p]? = some c
    · simp [branchEnd?, Piece.end?, hc, ih, Nat.add_comm, Nat.add_left_comm]
    · simp [branchEnd?, Piece.end?, hc]

theorem branchEnd?_left (wordChars : List Char) (c : Char) :
    branchEnd? t p ((guard? wordChars c).map .notLeft).toList =
      if p == 0 || (Edge.ofChar wordChars c).admits wordChars t[p - 1]? then some p else none := by
  rw [admits_eq_not_touched]
  cases guard? wordChars c <;> simp [branchEnd?, Piece.end?]

theorem branchEnd?_right (wordChars : List Char) (c : Char) :
    branchEnd? t p ((guard? wordChars c).map .notRight).toList =
      if (Edge.ofChar wordChars c).admits wordChars t[p]? then some p else none := by
  rw [admits_eq_not_touched]
  cases guard? wordChars c <;> simp [branchEnd?, Piece.end?]

theorem branchEnd?_ofLexeme {g : GuardedLexeme} (hbefore : g.before = .ofChar wordChars g.first)
    (hafter : g.after = .ofChar wordChars (g.chars.getLast g.chars_ne_nil)) :
    branchEnd? t p (ofLexeme wordChars g) =
      if g.matchesAt wordChars t p then some (p + g.length) else none := by
  rw [ofLexeme, branchEnd?_append, branchEnd?_append, branchEnd?_left, ← hbefore]
  cases hleft : p == 0 || g.before.admits wordChars t[p - 1]? with
  | false => simp [GuardedLexeme.matchesAt, hleft]
  | true =>
    cases hword : t.occursAt p g.chars with
    | false => simp [GuardedLexeme.matchesAt, branchEnd?_chars, hword]
    | true =>
      simp [GuardedLexeme.matchesAt, branchEnd?_chars, branchEnd?_right, hword, hleft, ← hafter,
        GuardedLexeme.length]

def Edged (wordChars : List Char) (g : GuardedLexeme) : Prop :=
  g.before = .ofChar wordChars g.first ∧
    g.after = .ofChar wordChars (g.chars.getLast g.chars_ne_nil)

theorem findSome?_branchEnd? {gs : List GuardedLexeme} (h : ∀ g ∈ gs, Edged wordChars g) :
    (gs.map (ofLexeme wordChars)).findSome? (branchEnd? t p) =
      (gs.find? (·.matchesAt wordChars t p)).map fun g => p + g.length := by
  induction gs with
  | nil => rfl
  | cons g gs ih =>
    obtain ⟨hg, hgs⟩ := List.forall_mem_cons.1 h
    rw [List.map_cons, List.findSome?_cons, branchEnd?_ofLexeme hg.1 hg.2, List.find?_cons]
    cases g.matchesAt wordChars t p with
    | false => simpa using ih hgs
    | true => simp

theorem end?_ofPattern {pat : Pattern} (h : ∀ g ∈ pat.alternatives, Edged pat.wordChars g) :
    (ofPattern pat).end? t p = (pat.matchAt t p).map (p + ·) := by
  unfold ofPattern Pattern.matchAt
  split
  · rename_i hnone
    rw [hnone]
    rfl
  · rw [end?, findSome?_branchEnd? h, Option.map_map]
    rfl

end Ends

section Written

variable {wordChars : List Char}

theorem flatMap_write_char (cs : List Char) :
    (cs.map Item.char).flatMap Item.write = PatternSource.literal cs := by
  rw [List.flatMap_map]
  rfl

theorem write_among (c : Char) (cs : List Char) :
    (Class.among (.char c) (cs.map .char)).write = PatternSource.bracketed (c :: cs) := by
  rw [Class.write, ← List.map_cons, flatMap_write_char]
  rfl

theorem alternation_wordClasses (wordChars : List Char) :
    PatternSource.alternation ((wordClasses wordChars).map Class.write) =
      PatternSource.wordClass wordChars := by
  have halpha : alphanumeric.write = PatternSource.alphanumericClass := by decide
  unfold wordClasses PatternSource.wordClass
  split
  · rfl
  · cases PatternSource.sortedSet wordChars with
    | nil => exact halpha
    | cons c extra => simp [PatternSource.alternation, halpha, write_among]

theorem alternation_symbolClasses {classes : List Class}
    (h : symbolClasses? wordChars = some classes) :
    PatternSource.alternation (classes.map Class.write) = PatternSource.symbolClass wordChars := by
  unfold symbolClasses? at h
  unfold PatternSource.symbolClass
  split at h
  · simp at h
  · rename_i d others hfilter
    obtain rfl := Option.some.inj h
    rw [hfilter]
    exact write_among d others

theorem map_guard (wordChars : List Char) (c : Char) :
    (guard? wordChars c).map (fun classes => PatternSource.alternation (classes.map Class.write)) =
      PatternSource.barred wordChars (Edge.ofChar wordChars c) := by
  unfold guard? Edge.ofChar
  by_cases hw : isWordChar wordChars c = true
  · simp only [if_pos hw, Option.map_some, alternation_wordClasses, PatternSource.barred]
  · by_cases hs : isSymbolChar c = true
    · obtain ⟨classes, hclasses⟩ := exists_symbolClasses (Bool.eq_false_iff.2 hw) hs
      simp only [if_neg hw, if_pos hs, hclasses, Option.map_some,
        alternation_symbolClasses hclasses, PatternSource.barred]
    · simp [hw, hs, PatternSource.barred]

theorem flatMap_write_ofLexeme {g : GuardedLexeme} (h : Edged wordChars g) :
    (ofLexeme wordChars g).flatMap Piece.write = PatternSource.lexeme wordChars g := by
  have hleft : ∀ guard : Option (List Class), (guard.map Piece.notLeft).toList.flatMap Piece.write =
      PatternSource.lookaround "?<!"
        (guard.map fun cs => PatternSource.alternation (cs.map Class.write)) := by
    intro guard
    cases guard <;> simp [Piece.write, PatternSource.lookaround]
  have hright : ∀ guard : Option (List Class),
      (guard.map Piece.notRight).toList.flatMap Piece.write = PatternSource.lookaround "?!"
        (guard.map fun cs => PatternSource.alternation (cs.map Class.write)) := by
    intro guard
    cases guard <;> simp [Piece.write, PatternSource.lookaround]
  have hchars : (g.chars.map Piece.char).flatMap Piece.write = PatternSource.literal g.chars := by
    rw [List.flatMap_map]
    rfl
  rw [ofLexeme, List.flatMap_append, List.flatMap_append, hleft, hright, hchars, map_guard,
    map_guard, ← h.1, ← h.2, PatternSource.lexeme]

theorem write_ofPattern {pat : Pattern} (h : ∀ g ∈ pat.alternatives, Edged pat.wordChars g) :
    (ofPattern pat).write = pat.source := by
  have hwrite : (pat.alternatives.map (ofLexeme pat.wordChars)).map (·.flatMap Piece.write) =
      pat.alternatives.map (PatternSource.lexeme pat.wordChars) := by
    rw [List.map_map]
    exact List.map_congr_left fun g hg => flatMap_write_ofLexeme (h g hg)
  unfold ofPattern Pattern.source
  cases hgs : pat.alternatives with
  | nil => rfl
  | cons g gs =>
    rw [hgs] at hwrite
    simp only [write, hwrite]

end Written

end Regex

/-- The pattern is written as the expression, and finds in every text what the expression finds
there. -/
structure Pattern.WrittenAs (pat : Pattern) (r : Regex) : Prop where
  source : pat.source = r.write
  hits : ∀ t a b, pat.hits t a b = r.findAll t a b

theorem LexemeTable.pattern_writtenAs (T : LexemeTable) (wordChars : String) :
    (T.pattern wordChars).WrittenAs (.ofPattern (T.pattern wordChars)) := by
  have hedged : ∀ g ∈ (T.pattern wordChars).alternatives,
      Regex.Edged (T.pattern wordChars).wordChars g := by
    intro g hg
    obtain ⟨w, -, hw⟩ := mem_alternatives.1 hg
    exact (GuardedLexeme.ofWord?_eq_some.1 hw).2
  refine ⟨(Regex.write_ofPattern hedged).symm, fun t a b => ?_⟩
  refine Text.sweep_congr fun p _ _ => ?_
  rw [Regex.end?_ofPattern hedged, Pattern.step, Option.map_map]
  rfl

end OrsonHighlight
