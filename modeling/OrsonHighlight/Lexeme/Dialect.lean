import OrsonHighlight.Lexeme.Table

/-!
Dialects: six lexeme tables under one name, with the built-in Orson words.
-/

set_option autoImplicit false

namespace OrsonHighlight

inductive TableName where
  | plainNames
  | operators
  | clauseKeywords
  | quotedNames
  | simpleTypes
  | jokerTypes
  deriving DecidableEq, Repr

namespace TableName

/-- By rising priority: where two tables claim a character, the later one has it. -/
def all : List TableName :=
  [plainNames, operators, clauseKeywords, quotedNames, simpleTypes, jokerTypes]

theorem mem_all (n : TableName) : n ∈ all := by cases n <;> decide

theorem nodup_all : all.Nodup := by decide

def key : TableName → String
  | plainNames => "plain_names"
  | operators => "operators"
  | clauseKeywords => "clause_keywords"
  | quotedNames => "quoted_names"
  | simpleTypes => "simple_types"
  | jokerTypes => "joker_types"

def cls : TableName → TokenClass
  | plainNames => .plainName
  | operators => .operator
  | clauseKeywords => .clauseKeyword
  | quotedNames => .quotedName
  | simpleTypes => .simpleType
  | jokerTypes => .jokerType

theorem eq_of_cls {n m : TableName} (h : n.cls = m.cls) : n = m := by
  cases n <;> cases m <;> simp [cls] at h ⊢

def ofKey? (key : String) : Option TableName := all.find? (·.key == key)

end TableName

/-- No two tables share a class, and none has that of strings or comments. -/
structure Dialect where
  name : String
  table : TableName → LexemeTable
  code : ∀ n, (table n).cls.isCode = true
  apart : ∀ n m, (table n).cls = (table m).cls → n = m

namespace Dialect

theorem ext_of {d e : Dialect} (hn : d.name = e.name) (ht : ∀ n, d.table n = e.table n) :
    d = e := by
  obtain ⟨_, _, _, _⟩ := d
  obtain ⟨_, _, _, _⟩ := e
  simp_all
  exact funext ht

instance : DecidableEq Dialect := fun d e =>
  if h : d.name = e.name ∧ ∀ n ∈ TableName.all, d.table n = e.table n then
    isTrue (ext_of h.1 fun n => h.2 n n.mem_all)
  else isFalse fun heq => h (heq ▸ ⟨rfl, fun _ _ => rfl⟩)

def tables (d : Dialect) : List LexemeTable := TableName.all.map d.table

def lexemes (d : Dialect) (n : TableName) : List String := (d.table n).lexemes

def renamed (d : Dialect) (name : String) : Dialect := { d with name }

def put (d : Dialect) (n : TableName) (t : LexemeTable) (h : t.cls = (d.table n).cls) : Dialect :=
  have hcls : ∀ m, (if m = n then t else d.table m).cls = (d.table m).cls := fun m => by
    split
    · rename_i hm
      rw [h, hm]
    · rfl
  { name := d.name
    table := fun m => if m = n then t else d.table m
    code := fun m => by rw [hcls]; exact d.code m
    apart := fun m k hmk => d.apart m k (by rwa [hcls, hcls] at hmk) }

variable {d : Dialect} {n : TableName} {t : LexemeTable} (h : t.cls = (d.table n).cls)

@[simp] theorem table_put (m : TableName) :
    (d.put n t h).table m = if m = n then t else d.table m := rfl

@[simp] theorem name_put : (d.put n t h).name = d.name := rfl

/-- Other words under the name and the class that the table has. Refused if a word comes twice. -/
def withTable (d : Dialect) (n : TableName) (words : List String) :
    Except DuplicateLexeme Dialect :=
  match h : LexemeTable.ofWords (d.table n).name (d.table n).cls words with
  | .error e => .error e
  | .ok t => .ok (d.put n t (LexemeTable.cls_of_ofWords h))

def withExtra (d : Dialect) (n : TableName) (words : List String) : Dialect :=
  d.put n ((d.table n).extended words) rfl

inductive Edit where
  | replace (table : String) (words : List String)
  | extend (table : String) (words : List String)
  deriving DecidableEq, Repr

inductive EditError where
  | unknownTable (key : String)
  | duplicate (e : DuplicateLexeme)
  deriving DecidableEq, Repr

def named (key : String) : Except EditError TableName :=
  match TableName.ofKey? key with
  | some n => .ok n
  | none => .error (.unknownTable key)

/-- The table of a key is looked up before the words are read. -/
def edit (d : Dialect) : Edit → Except EditError Dialect
  | .replace key words => do
    let n ← named key
    (d.withTable n words).mapError .duplicate
  | .extend key words => do
    let n ← named key
    return d.withExtra n words

/-- One more owner of a lexeme; a lexeme is listed where it was first seen. -/
def addOwner (table lexeme : String) : List (String × List String) → List (String × List String)
  | [] => [(lexeme, [table])]
  | (l, owners) :: rest =>
    if l = lexeme then (l, owners ++ [table]) :: rest else (l, owners) :: addOwner table lexeme rest

def owners (d : Dialect) : List (String × List String) :=
  d.tables.foldl (fun found t => t.lexemes.foldl (fun found l => addOwner t.name l found) found) []

def overlaps (d : Dialect) : List (String × List String) := d.owners.filter (1 < ·.2.length)

end Dialect

def TableName.orsonWords : TableName → List String
  | plainNames =>
    ["abs", "apply", "catenate", "close", "error", "exit", "halt", "head", "isDigit", "isLetter",
     "isSpace", "length", "lower", "max", "min", "next", "open", "read", "size", "sqrt", "tail",
     "upper", "write", "writeln"]
  | operators =>
    ["+", "-", "*", "/", "&", "|", "~", "^", "<<", ">>", "=", "<>", "<", "<=", ">", ">=", ":-",
     ":=", "+=", "-=", "*=", "/=", "&=", "|=", "^=", "<<=", ">>=", "->", "@", "..", ",", ";", ":",
     "(", ")", "[", "]", "\x7b", "\x7d", "and", "or", "not", "mod", "xor"]
  | clauseKeywords =>
    ["alt", "begin", "case", "catch", "do", "else", "end", "for", "form", "gen", "if", "in", "load",
     "of", "past", "proc", "prog", "then", "while", "with"]
  | quotedNames => ["false", "true", "nil", "none", "skip", "self", "eos", "eop"]
  | simpleTypes =>
    ["bool", "char0", "char1", "int0", "int1", "int2", "null", "real0", "real1", "string", "void"]
  | jokerTypes =>
    ["alj", "cha", "exe", "foj", "gej", "inj", "met", "mut", "num", "obj", "pro", "rej", "sca",
     "sej", "sym", "tup", "type"]

def TableName.orson (n : TableName) : LexemeTable where
  name := n.key
  cls := n.cls
  lexemes := n.orsonWords
  distinct := by cases n <;> decide

def Dialect.orson : Dialect where
  name := "orson"
  table := TableName.orson
  code n := by cases n <;> rfl
  apart _ _ h := TableName.eq_of_cls h

end OrsonHighlight
