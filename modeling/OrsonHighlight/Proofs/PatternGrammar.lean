import OrsonHighlight.Proofs.LongestLexemes

/-!
The grammar of written patterns. A pattern is written as alternatives between bars, each a row of
characters that may have a guard before it and one behind it. No text can be taken apart in two ways
by this grammar, and what is written for a table is taken apart into its lexemes, the longest first,
with guards that hold exactly the characters that would continue a name or an operator.
-/

set_option autoImplicit false

namespace OrsonHighlight

namespace PatternGrammar

def syntaxChars : List Char :=
  ['.', '^', '$', '*', '+', '?', '\x7b', '\x7d', '[', ']', '\\', '|', '(', ')', '-', '&', '~']

/-- A character for itself, where it has no other meaning, or any character behind a backslash. -/
inductive Letter where
  | plain (c : Char) (h : c ∉ syntaxChars)
  | escaped (c : Char)
  deriving DecidableEq, Repr

namespace Letter

def char : Letter → Char
  | plain c _ => c
  | escaped c => c

def write : Letter → List Char
  | plain c _ => [c]
  | escaped c => ['\\', c]

/-- Within brackets there are two letters that stand for classes behind a backslash. -/
def item : Letter → Regex.Item
  | plain c _ => .char c
  | escaped c => if c = 'w' then .word else if c = 'W' then .nonWord else .char c

end Letter

structure Bracket where
  outside : Bool
  first : Letter
  rest : List Letter
  deriving DecidableEq, Repr

namespace Bracket

def cls (b : Bracket) : Regex.Class :=
  if b.outside then .outside b.first.item (b.rest.map Letter.item)
    else .among b.first.item (b.rest.map Letter.item)

def write (b : Bracket) : List Char :=
  '[' :: ((if b.outside then ['^'] else []) ++ (b.first :: b.rest).flatMap Letter.write ++ [']'])

end Bracket

/-- What is tested beside a lexeme: the class of all word characters, or one bracket or another. -/
inductive Guard where
  | word
  | brackets (first : Bracket) (rest : List Bracket)
  deriving DecidableEq, Repr

namespace Guard

def classes : Guard → List Regex.Class
  | word => [.item .word]
  | brackets b rest => (b :: rest).map Bracket.cls

def holds (k : Guard) (c : Char) : Bool := k.classes.any (·.holds c)

def write : Guard → List Char
  | word => ['\\', 'w']
  | brackets b rest => ['|'].intercalate ((b :: rest).map Bracket.write)

def writeBeside (mark : List Char) : Option Guard → List Char
  | none => []
  | some k => '(' :: (mark ++ k.write ++ [')'])

end Guard

/-- One or more characters between guards, either of which may be missing. -/
structure Alternative where
  before : Option Guard
  first : Letter
  rest : List Letter
  after : Option Guard
  deriving DecidableEq, Repr

namespace Alternative

def letters (a : Alternative) : List Letter := a.first :: a.rest

def last (a : Alternative) : Letter := a.letters.getLast (List.cons_ne_nil _ _)

def word (a : Alternative) : String := String.ofList (a.letters.map Letter.char)

def write (a : Alternative) : List Char :=
  Guard.writeBeside ['?', '<', '!'] a.before ++ a.letters.flatMap Letter.write ++
    Guard.writeBeside ['?', '!'] a.after

end Alternative

structure Source where
  first : Alternative
  rest : List Alternative
  deriving DecidableEq, Repr

namespace Source

def alternatives (s : Source) : List Alternative := s.first :: s.rest

def words (s : Source) : List String := s.alternatives.map Alternative.word

def write (s : Source) : String :=
  String.ofList (['|'].intercalate (s.alternatives.map Alternative.write))

end Source

/-- Two values that are written before such texts are the same where the whole texts are. -/
def Separable {α : Type} (write : α → List Char) (follows : List Char → Prop) : Prop :=
  ∀ x y r r', follows r → follows r' → write x ++ r = write y ++ r' → x = y ∧ r = r'

theorem Separable.joined {α : Type} {write : α → List Char} {follows stops : List Char → Prop}
    (h : Separable write follows) (hbar : ∀ r, follows ('|' :: r))
    (hstops : ∀ r, stops r → follows r ∧ r.head? ≠ some '|') :
    Separable (fun xs : α × List α => ['|'].intercalate ((xs.1 :: xs.2).map write)) stops := by
  rintro ⟨x, xs⟩ ⟨y, ys⟩ r r' hr hr' heq
  -- after each value a bar tells that one more comes, and what stops the row is no bar
  induction xs generalizing x y ys with
  | nil =>
    cases ys with
    | nil =>
      obtain ⟨rfl, rfl⟩ := h x y r r' (hstops r hr).1 (hstops r' hr').1 (by simpa using heq)
      exact ⟨rfl, rfl⟩
    | cons y' ys =>
      obtain ⟨-, hrest⟩ := h x y r _ (hstops r hr).1 (hbar _) (by simpa using heq)
      exact absurd (by rw [hrest]; rfl) (hstops r hr).2
  | cons x' xs ih =>
    cases ys with
    | nil =>
      obtain ⟨-, hrest⟩ := h x y _ r' (hbar _) (hstops r' hr').1 (by simpa using heq)
      exact absurd (by rw [← hrest]; rfl) (hstops r' hr').2
    | cons y' ys =>
      obtain ⟨rfl, hrest⟩ := h x y _ _ (hbar _) (hbar _) (by simpa using heq)
      obtain ⟨hxs, rfl⟩ := ih x' y' ys (by simpa using hrest)
      obtain ⟨rfl, rfl⟩ := Prod.mk.inj hxs
      exact ⟨rfl, rfl⟩

def EndsRow (r : List Char) : Prop := ∀ (l : Letter) (s : List Char), r ≠ l.write ++ s

theorem endsRow_nil : EndsRow [] := by
  intro l s
  cases l <;> simp [Letter.write]

theorem endsRow_cons {c : Char} (hc : c ∈ syntaxChars) (hne : c ≠ '\\') (r : List Char) :
    EndsRow (c :: r) := by
  intro l s heq
  cases l with
  | plain d hd =>
    obtain ⟨rfl, -⟩ := List.cons.inj heq
    exact hd hc
  | escaped d => exact hne (List.cons.inj heq).1

theorem Letter.separable_write : Separable Letter.write fun _ => True := by
  intro l m r r' _ _ heq
  cases l with
  | plain c h =>
    cases m with
    | plain d h' => simpa [write] using heq
    | escaped d =>
      obtain ⟨rfl, -⟩ := List.cons.inj heq
      exact absurd (by decide) h
  | escaped c =>
    cases m with
    | plain d h' =>
      obtain ⟨rfl, -⟩ := List.cons.inj heq
      exact absurd (by decide) h'
    | escaped d => simpa [write] using heq

theorem Letter.separable_row : Separable (List.flatMap Letter.write) EndsRow := by
  intro ls ms r r' hr hr' heq
  induction ls generalizing ms with
  | nil =>
    cases ms with
    | nil => exact ⟨rfl, heq⟩
    | cons m ms => exact absurd (by simpa using heq) (hr m (ms.flatMap write ++ r'))
  | cons l ls ih =>
    cases ms with
    | nil => exact absurd (by simpa using heq.symm) (hr' l (ls.flatMap write ++ r))
    | cons m ms =>
      simp only [List.flatMap_cons, List.append_assoc] at heq
      obtain ⟨rfl, hrest⟩ := separable_write l m _ _ trivial trivial heq
      obtain ⟨rfl, rfl⟩ := ih ms hrest
      exact ⟨rfl, rfl⟩

theorem Bracket.separable_write : Separable Bracket.write fun _ => True := by
  rintro ⟨out, l, ls⟩ ⟨out', m, ms⟩ r r' _ _ heq
  have hhat : ∀ s, EndsRow ('^' :: s) := endsRow_cons (by decide) (by decide)
  have hclose : ∀ s, EndsRow (']' :: s) := endsRow_cons (by decide) (by decide)
  have hrow : (l :: ls).flatMap Letter.write ++ ']' :: r =
      (m :: ms).flatMap Letter.write ++ ']' :: r' →
      (⟨out, l, ls⟩ : Bracket) = ⟨out, m, ms⟩ ∧ r = r' := by
    intro h
    obtain ⟨hletters, hrest⟩ := Letter.separable_row _ _ _ _ (hclose r) (hclose r') h
    obtain ⟨rfl, rfl⟩ := List.cons.inj hletters
    exact ⟨rfl, (List.cons.inj hrest).2⟩
  cases out <;> cases out'
  · exact hrow (by simpa [write] using heq)
  · exact absurd (by simpa [write] using heq.symm) (hhat _ l _)
  · exact absurd (by simpa [write] using heq) (hhat _ m _)
  · exact hrow (by simpa [write] using heq)

theorem Guard.separable_write : Separable Guard.write fun r => ∃ s, r = ')' :: s := by
  have hjoined : Separable (fun bs : Bracket × List Bracket =>
      ['|'].intercalate ((bs.1 :: bs.2).map Bracket.write)) fun r => ∃ s, r = ')' :: s := by
    refine Bracket.separable_write.joined (fun _ => trivial) ?_
    rintro _ ⟨s, rfl⟩
    exact ⟨trivial, by simp⟩
  intro k k' r r' hr hr' heq
  cases k with
  | word =>
    cases k' with
    | word => exact ⟨rfl, by simpa [write] using heq⟩
    | brackets b bs => cases bs <;> simp [write, Bracket.write] at heq
  | brackets b bs =>
    cases k' with
    | word => cases bs <;> simp [write, Bracket.write] at heq
    | brackets b' bs' =>
      obtain ⟨hbs, rfl⟩ := hjoined (b, bs) (b', bs') r r' hr hr' heq
      obtain ⟨rfl, rfl⟩ := Prod.mk.inj hbs
      exact ⟨rfl, rfl⟩

theorem Guard.separable_writeBeside (mark : List Char) :
    Separable (Guard.writeBeside mark) fun r => r.head? ≠ some '(' := by
  intro g g' r r' hr hr' heq
  cases g with
  | none =>
    cases g' with
    | none => exact ⟨rfl, heq⟩
    | some k' => exact absurd (congrArg List.head? heq) hr
  | some k =>
    cases g' with
    | none => exact absurd (congrArg List.head? heq.symm) hr'
    | some k' =>
      have hinner : k.write ++ ')' :: r = k'.write ++ ')' :: r' := by simpa [writeBeside] using heq
      obtain ⟨rfl, hrest⟩ := separable_write k k' _ _ ⟨r, rfl⟩ ⟨r', rfl⟩ hinner
      exact ⟨rfl, (List.cons.inj hrest).2⟩

theorem Letter.head?_row_ne (l : Letter) (ls : List Letter) (r : List Char) :
    ((l :: ls).flatMap Letter.write ++ r).head? ≠ some '(' := by
  intro hhead
  obtain ⟨s, hs⟩ := List.head?_eq_some_iff.1 hhead
  have hparen : EndsRow ('(' :: s) := endsRow_cons (by decide) (by decide) s
  exact hparen l (ls.flatMap write ++ r) (by rw [← hs]; simp)

def EndsAlternative (r : List Char) : Prop := r = [] ∨ ∃ s, r = '|' :: s

theorem EndsAlternative.head?_ne {r : List Char} (hr : EndsAlternative r) : r.head? ≠ some '(' := by
  obtain rfl | ⟨s, rfl⟩ := hr <;> simp

theorem EndsAlternative.endsRow {r : List Char} (hr : EndsAlternative r) (mark : List Char)
    (g : Option Guard) :
    EndsRow (Guard.writeBeside mark g ++ r) := by
  cases g with
  | none =>
    obtain rfl | ⟨s, rfl⟩ := hr
    · exact endsRow_nil
    · exact endsRow_cons (by decide) (by decide) s
  | some k => exact endsRow_cons (by decide) (by decide) _

theorem Alternative.separable_write : Separable Alternative.write EndsAlternative := by
  rintro ⟨before, l, ls, after⟩ ⟨before', m, ms, after'⟩ r r' hr hr' heq
  simp only [write, letters, List.append_assoc] at heq
  obtain ⟨rfl, hrest⟩ := Guard.separable_writeBeside _ before before' _ _ (l.head?_row_ne ls _)
    (m.head?_row_ne ms _) heq
  obtain ⟨hletters, hrest⟩ :=
    Letter.separable_row _ _ _ _ (hr.endsRow _ after) (hr'.endsRow _ after') hrest
  obtain ⟨rfl, rfl⟩ :=
    Guard.separable_writeBeside _ after after' r r' hr.head?_ne hr'.head?_ne hrest
  obtain ⟨rfl, rfl⟩ := List.cons.inj hletters
  exact ⟨rfl, rfl⟩

/-- The grammar is unambiguous. -/
theorem Source.write_injective : Function.Injective Source.write := by
  intro s s' heq
  have hjoined : Separable (fun as : Alternative × List Alternative =>
      ['|'].intercalate ((as.1 :: as.2).map Alternative.write)) (· = []) := by
    refine Alternative.separable_write.joined (fun r => .inr ⟨r, rfl⟩) ?_
    rintro _ rfl
    exact ⟨.inl rfl, by simp⟩
  obtain ⟨hsame, -⟩ := hjoined (s.first, s.rest) (s'.first, s'.rest) [] [] rfl rfl
    (congrArg (· ++ []) (String.ofList_injective heq))
  obtain ⟨hfirst, hrest⟩ := Prod.mk.inj hsame
  cases s
  cases s'
  congr

theorem mem_metaChars {c : Char} (h : c ∈ syntaxChars) : c ∈ PatternSource.metaChars := by
  have hall : syntaxChars.all (· ∈ PatternSource.metaChars) = true := by decide
  simpa using List.all_eq_true.1 hall c h

def Letter.ofItem : Regex.Item → Letter
  | .char c => if h : c ∈ PatternSource.metaChars then .escaped c else .plain c (mt mem_metaChars h)
  | .word => .escaped 'w'
  | .nonWord => .escaped 'W'

theorem Letter.write_ofItem (i : Regex.Item) : (ofItem i).write = i.write := by
  cases i with
  | char c =>
    by_cases hc : c ∈ PatternSource.metaChars <;>
      simp [ofItem, hc, write, Regex.Item.write, PatternSource.escape]
  | word => rfl
  | nonWord => rfl

theorem Letter.char_ofItem (c : Char) : (ofItem (.char c)).char = c := by
  by_cases hc : c ∈ PatternSource.metaChars <;> simp [ofItem, hc, char]

/-- No character that is written with a backslash stands for a class then. -/
theorem Letter.item_ofItem (i : Regex.Item) : (ofItem i).item = i := by
  cases i with
  | char c =>
    by_cases hc : c ∈ PatternSource.metaChars
    · have hw : c ≠ 'w' := fun heq => absurd (heq ▸ hc) (by decide)
      have hW : c ≠ 'W' := fun heq => absurd (heq ▸ hc) (by decide)
      simp [ofItem, hc, item, hw, hW]
    · simp [ofItem, hc, item]
  | word => rfl
  | nonWord => rfl

theorem Letter.flatMap_write_ofItem (is : List Regex.Item) :
    (is.map ofItem).flatMap write = is.flatMap Regex.Item.write := by
  rw [List.flatMap_map]
  exact List.flatMap_congr fun i _ => write_ofItem i

def Bracket.ofItems (outside : Bool) (i : Regex.Item) (is : List Regex.Item) : Bracket :=
  ⟨outside, .ofItem i, is.map .ofItem⟩

theorem Bracket.cls_ofItems (outside : Bool) (i : Regex.Item) (is : List Regex.Item) :
    (ofItems outside i is).cls = if outside then .outside i is else .among i is := by
  have hitems : (is.map Letter.ofItem).map Letter.item = is := by
    simp [Function.comp_def, Letter.item_ofItem]
  simp only [cls, ofItems, Letter.item_ofItem, hitems]

theorem Bracket.write_ofItems (outside : Bool) (i : Regex.Item) (is : List Regex.Item) :
    (ofItems outside i is).write = (ofItems outside i is).cls.write := by
  have hrow := Letter.flatMap_write_ofItem (i :: is)
  rw [List.map_cons] at hrow
  rw [cls_ofItems, write, ofItems, hrow]
  cases outside <;> rfl

theorem alternation_eq_intercalate (xs : List (List Char)) :
    PatternSource.alternation xs = ['|'].intercalate xs := by
  fun_induction PatternSource.alternation xs with
  | case1 => rfl
  | case2 x => simp
  | case3 x rest hrest ih =>
    obtain ⟨y, ys, rfl⟩ := List.exists_cons_of_ne_nil hrest
    simp [ih]

theorem Guard.write_brackets {b : Bracket} {bs : List Bracket}
    (h : ∀ b' ∈ b :: bs, b'.write = b'.cls.write) :
    (brackets b bs).write =
      PatternSource.alternation ((brackets b bs).classes.map Regex.Class.write) := by
  have hwrite : (b :: bs).map Bracket.write =
      ((b :: bs).map Bracket.cls).map Regex.Class.write := by
    rw [List.map_map]
    exact List.map_congr_left h
  rw [write, hwrite, alternation_eq_intercalate, classes]

theorem Guard.exists_wordClasses (wordChars : List Char) :
    ∃ k : Guard, k.classes = Regex.wordClasses wordChars ∧
      k.write = PatternSource.alternation (k.classes.map Regex.Class.write) := by
  unfold Regex.wordClasses
  split
  · exact ⟨.word, rfl, rfl⟩
  · split
    · refine ⟨.brackets (.ofItems true .nonWord [.char '_']) [], ?_, write_brackets ?_⟩
      · simp [classes, Bracket.cls_ofItems, Regex.alphanumeric]
      · simp [Bracket.write_ofItems]
    · rename_i c extra _
      refine ⟨.brackets (.ofItems true .nonWord [.char '_'])
        [.ofItems false (.char c) (extra.map .char)], ?_, write_brackets ?_⟩
      · simp [classes, Bracket.cls_ofItems, Regex.alphanumeric]
      · simp [Bracket.write_ofItems]

theorem Guard.exists_symbolClasses {wordChars : List Char} {cs : List Regex.Class}
    (h : Regex.symbolClasses? wordChars = some cs) :
    ∃ k : Guard, k.classes = cs ∧
      k.write = PatternSource.alternation (k.classes.map Regex.Class.write) := by
  unfold Regex.symbolClasses? at h
  split at h
  · simp at h
  · rename_i c others _
    obtain rfl := Option.some.inj h
    refine ⟨.brackets (.ofItems false (.char c) (others.map .char)) [], ?_, write_brackets ?_⟩
    · simp [classes, Bracket.cls_ofItems]
    · simp [Bracket.write_ofItems]

/-- The guard beside a lexeme with this character at its edge: there is one where a name or an
operator could go on there, and it holds what would go on with it. -/
structure Guard.Fits (wordChars : String) (edge : Char) (g : Option Guard) : Prop where
  present : g.isSome = true ↔ isWordChar wordChars.toList edge = true ∨ isSymbolChar edge = true
  word : isWordChar wordChars.toList edge = true → ∀ k ∈ g, ∀ c,
    k.holds c = true ↔ isWordChar wordChars.toList c = true
  symbol : isWordChar wordChars.toList edge = false → isSymbolChar edge = true → ∀ k ∈ g, ∀ c,
    k.holds c = true ↔ isSymbolChar c = true ∧ c ∉ wordChars.toList

theorem Guard.exists_fits (wordChars : String) (edge : Char) :
    ∃ g : Option Guard, Fits wordChars edge g ∧
      g.map Guard.write = PatternSource.barred wordChars.toList
        (.ofChar wordChars.toList edge) := by
  rw [← Regex.map_guard, Regex.guard?]
  by_cases hw : isWordChar wordChars.toList edge = true
  · obtain ⟨k, hclasses, hwrite⟩ := exists_wordClasses wordChars.toList
    refine ⟨some k, ⟨by simp [hw], ?_, by simp [hw]⟩, by simp [hw, hwrite, hclasses]⟩
    rintro - _ ⟨⟩ c
    rw [holds, hclasses, Regex.any_wordClasses]
  · by_cases hs : isSymbolChar edge = true
    · obtain ⟨cs, hcs⟩ := Regex.exists_symbolClasses (Bool.eq_false_iff.2 hw) hs
      obtain ⟨k, rfl, hwrite⟩ := exists_symbolClasses hcs
      refine ⟨some k, ⟨by simp [hs], by simp [hw], ?_⟩, by simp [hw, hs, hcs, hwrite]⟩
      rintro - - _ ⟨⟩ c
      rw [holds, Regex.any_symbolClasses hcs]
      simp
    · exact ⟨none, ⟨by simp [hw, hs], by simp, by simp⟩, by simp [hw, hs]⟩

structure Alternative.Guarded (wordChars : String) (a : Alternative) : Prop where
  before : Guard.Fits wordChars a.first.char a.before
  after : Guard.Fits wordChars a.last.char a.after

theorem Guard.lookaround_map_write (mark : String) (g : Option Guard) :
    PatternSource.lookaround mark (g.map write) = writeBeside mark.toList g := by
  cases g <;> rfl

def Alternative.ofLexeme (g : GuardedLexeme) (before after : Option Guard) : Alternative :=
  ⟨before, .ofItem (.char g.first), (g.rest.map .char).map .ofItem, after⟩

theorem Alternative.letters_ofLexeme (g : GuardedLexeme) (before after : Option Guard) :
    (ofLexeme g before after).letters = (g.chars.map .char).map .ofItem := rfl

theorem Alternative.word_ofLexeme (g : GuardedLexeme) (before after : Option Guard) :
    (ofLexeme g before after).word = String.ofList g.chars := by
  simp [word, letters_ofLexeme, Function.comp_def, Letter.char_ofItem]

theorem Alternative.char_last_ofLexeme (g : GuardedLexeme) (before after : Option Guard) :
    (ofLexeme g before after).last.char = g.chars.getLast g.chars_ne_nil := by
  simp [last, letters_ofLexeme, Letter.char_ofItem]

theorem Alternative.exists_of_lexeme {wordChars w : String} {g : GuardedLexeme}
    (hg : GuardedLexeme.ofWord? wordChars.toList w = some g) : ∃ a : Alternative,
      a.write = PatternSource.lexeme wordChars.toList g ∧ a.word = w ∧ a.Guarded wordChars := by
  obtain ⟨hchars, hbefore, hafter⟩ := GuardedLexeme.ofWord?_eq_some.1 hg
  obtain ⟨before, hfits, hwrite⟩ := Guard.exists_fits wordChars g.first
  obtain ⟨after, hfits', hwrite'⟩ := Guard.exists_fits wordChars (g.chars.getLast g.chars_ne_nil)
  refine ⟨ofLexeme g before after, ?_, ?_, ⟨?_, ?_⟩⟩
  · rw [write, letters_ofLexeme, Letter.flatMap_write_ofItem, Regex.flatMap_write_char,
      PatternSource.lexeme, hbefore, hafter, ← hwrite, ← hwrite', Guard.lookaround_map_write,
      Guard.lookaround_map_write]
    rfl
  · rw [word_ofLexeme, hchars, String.ofList_toList]
  · rwa [ofLexeme, Letter.char_ofItem]
  · rwa [char_last_ofLexeme]

theorem exists_alternatives (wordChars : String) (ws : List String) : ∃ as : List Alternative,
    as.map Alternative.write =
      (ws.filterMap (GuardedLexeme.ofWord? wordChars.toList)).map
        (PatternSource.lexeme wordChars.toList) ∧
      as.map Alternative.word = ws.filter (· ≠ "") ∧ ∀ a ∈ as, a.Guarded wordChars := by
  induction ws with
  | nil => exact ⟨[], rfl, rfl, by simp⟩
  | cons w ws ih =>
    obtain ⟨as, hwrite, hwords, hguarded⟩ := ih
    by_cases hw : w = ""
    · subst hw
      exact ⟨as, by simpa [GuardedLexeme.ofWord?] using hwrite, by simpa using hwords, hguarded⟩
    · obtain ⟨g, hg⟩ : ∃ g, GuardedLexeme.ofWord? wordChars.toList w = some g :=
        GuardedLexeme.exists_ofWord? (mt String.toList_eq_nil_iff.1 hw)
      obtain ⟨a, hawrite, haword, haguarded⟩ := Alternative.exists_of_lexeme hg
      refine ⟨a :: as, by simp [hg, hawrite, hwrite], by simp [hw, haword, hwords], ?_⟩
      exact List.forall_mem_cons.2 ⟨haguarded, hguarded⟩

theorem source_of_ne_nil {pat : Pattern} (h : pat.alternatives ≠ []) :
    pat.source =
      String.ofList
        (['|'].intercalate (pat.alternatives.map (PatternSource.lexeme pat.wordChars))) := by
  unfold Pattern.source
  split
  · contradiction
  · rw [alternation_eq_intercalate]

/-- The words are those of the table that are not empty, each once, the longest first and those of
one length by their code points, and their guards are those that are meant. -/
structure Source.Lists (T : LexemeTable) (wordChars : String) (s : Source) : Prop where
  mem : ∀ w, w ∈ s.words ↔ w ∈ T.lexemes ∧ w ≠ ""
  once : s.words.Nodup
  order : s.words.Pairwise fun v w => w.length < v.length ∨ v.length = w.length ∧ v < w
  guarded : ∀ a ∈ s.alternatives, a.Guarded wordChars

theorem Source.exists_lists {T : LexemeTable} (wordChars : String) {w : String}
    (hw : w ∈ T.lexemes) (hne : w ≠ "") :
    ∃ s : Source, s.write = (T.pattern wordChars).source ∧ s.Lists T wordChars := by
  obtain ⟨as, hwrite, hwords, hguarded⟩ := exists_alternatives wordChars T.longestFirst
  have hmem : ∀ v, v ∈ as.map Alternative.word ↔ v ∈ T.lexemes ∧ v ≠ "" := by
    simp [hwords, LexemeTable.mem_longestFirst]
  have horder : (as.map Alternative.word).Pairwise fun v w => LexemeTable.precedes v w = true := by
    rw [hwords]
    exact T.pairwise_longestFirst.filter _
  cases as with
  | nil => exact absurd ((hmem w).2 ⟨hw, hne⟩) (by simp)
  | cons a as =>
    refine ⟨⟨a, as⟩, ?_, hmem, ?_, horder.imp LexemeTable.precedes_iff.1, hguarded⟩
    · have halternatives : (T.pattern wordChars).alternatives ≠ [] := by
        intro hnil
        rw [show T.longestFirst.filterMap (GuardedLexeme.ofWord? wordChars.toList) = [] from hnil]
          at hwrite
        simp at hwrite
      rw [source_of_ne_nil halternatives]
      exact congrArg (fun xs => String.ofList (['|'].intercalate xs)) hwrite
    · refine horder.imp fun {v w} hprec heq => ?_
      simp [heq, LexemeTable.precedes] at hprec

end PatternGrammar

open PatternGrammar

theorem LexemeTable.source_parses (T : LexemeTable) (wordChars : String)
    (h : ∃ w ∈ T.lexemes, w ≠ "") :
    (∃! s : Source, s.write = (T.pattern wordChars).source) ∧
      ∀ s : Source, s.write = (T.pattern wordChars).source → s.Lists T wordChars := by
  obtain ⟨w, hw, hne⟩ := h
  obtain ⟨s, hs, hlists⟩ := Source.exists_lists wordChars hw hne
  have hunique : ∀ s' : Source, s'.write = (T.pattern wordChars).source → s' = s := fun s' hs' =>
    Source.write_injective (hs'.trans hs.symm)
  exact ⟨⟨s, hs, hunique⟩, fun s' hs' => hunique s' hs' ▸ hlists⟩

theorem LexemeTable.source_parses_bar : ∃ T : LexemeTable, T.lexemes = ["]", "", "a|"] ∧
    (T.pattern "]^").source =
      "(?<![^\\W_]|[\\]\\^])a\\|(?![\\#\\$%\\&\\*\\+\\-/:<=>\\?@\\\\\\|\\~])|" ++
        "(?<![^\\W_]|[\\]\\^])\\](?![^\\W_]|[\\]\\^])" ∧
    (∃ w ∈ T.lexemes, w ≠ "") ∧ (∃! s : Source, s.write = (T.pattern "]^").source) ∧
      ∀ s : Source, s.write = (T.pattern "]^").source → s.Lists T "]^" :=
  ⟨⟨"t", .operator, ["]", "", "a|"], by decide⟩, rfl, by decide +kernel, by decide,
    source_parses _ _ (by decide)⟩

end OrsonHighlight
