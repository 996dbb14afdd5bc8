import OrsonHighlight.Mode
import OrsonHighlight.Toml.Value

set_option autoImplicit false

namespace OrsonHighlight

namespace Config

inductive Fault where
  | invalidToml
  | notATable (sectionName : String)
  | unknownTable (sectionName name : String)
  | notWords (sectionName name : String)
  | duplicate (e : DuplicateLexeme)
  | badName
  | badCommentStart
  | badDelimiter
  | commentInDelimiter
  | badWordChars
  | wordCharsClash
  | unknownFormat (name : String)
  deriving DecidableEq, Repr

def Fault.message : Fault → String
  | invalidToml => "invalid TOML"
  | notATable sectionName => "[" ++ sectionName ++ "] must be a table"
  | unknownTable _ name => "unknown lexeme table '" ++ name ++ "'"
  | notWords _ _ => "expected a list of strings"
  | duplicate e => DuplicateLexeme.message ++ " " ++ Quoted.encodeString e.lexeme
  | badName => "mode name must be a non-empty string"
  | badCommentStart => "comment_start must be a single character"
  | badDelimiter => "string_delimiter must be a non-empty string"
  | commentInDelimiter => "string_delimiter must not contain the comment character"
  | badWordChars => "word_chars must be a string"
  | wordCharsClash => "word_chars must not contain comment or string characters"
  | unknownFormat name => "unknown output format '" ++ name ++ "'"

def Fault.key : Fault → Option String
  | invalidToml => none
  | notATable sectionName => some sectionName
  | unknownTable sectionName name | notWords sectionName name => some (sectionName ++ "." ++ name)
  | duplicate e => some e.table
  | badName => some "mode.name"
  | badCommentStart => some "mode.comment_start"
  | badDelimiter | commentInDelimiter => some "mode.string_delimiter"
  | badWordChars | wordCharsClash => some "mode.word_chars"
  | unknownFormat _ => some "output.format"

structure Error where
  fault : Fault
  path : Option Path
  deriving DecidableEq, Repr

def report (message : String) (path : Option Path) (key : Option String) : String :=
  "error: " ++ message ++ "\n  --> " ++
    (match path with | some p => p.toString | none => "<dialect>") ++
    (match key with
      | some k => if k = "" then "" else " [" ++ k ++ "]"
      | none => "")

def Error.report (e : Error) : String := Config.report e.fault.message e.path e.fault.key

def asString? : Toml.Value → Option String
  | .string s => some s
  | _ => none

def asWords? : Toml.Value → Option (List String)
  | .array items => items.mapM asString?
  | _ => none

def wordEntry (sectionName : String) (entry : String × Toml.Value) :
    Except Fault (TableName × List String) :=
  match TableName.ofKey? entry.1 with
  | none => .error (.unknownTable sectionName entry.1)
  | some n =>
    match asWords? entry.2 with
    | none => .error (.notWords sectionName entry.1)
    | some words => .ok (n, words)

def wordSection (config : Toml.Entries) (sectionName : String) :
    Except Fault (List (TableName × List String)) :=
  match config.get? sectionName with
  | none | some .null => .ok []
  | some (.table entries) => entries.mapM (wordEntry sectionName)
  | some _ => .error (.notATable sectionName)

def replaceTable (d : Dialect) (entry : TableName × List String) : Except Fault Dialect :=
  (d.withTable entry.1 entry.2).mapError .duplicate

def extendTable (d : Dialect) (entry : TableName × List String) : Dialect :=
  d.withExtra entry.1 entry.2

/-- The dialect with its tables first replaced and then extended, and whether there was anything to
do. -/
def dialect (config : Toml.Entries) (base : Dialect) : Except Fault (Dialect × Bool) := do
  let replaced ← wordSection config "tables"
  let d ← replaced.foldlM replaceTable base
  let extended ← wordSection config "extend"
  return (extended.foldl extendTable d, !replaced.isEmpty || !extended.isEmpty)

def settings (config : Toml.Entries) : Except Fault Toml.Entries :=
  match config.get? "mode" with
  | none => .ok []
  | some (.table entries) => .ok entries
  | some _ => .error (.notATable "mode")

/-- A setting, or that of the base; none where it is there and not a string. -/
def setting (settings : Toml.Entries) (key base : String) : Option String :=
  match settings.get? key with
  | none => some base
  | some v => asString? v

structure Strings where
  name : String
  commentStart : String
  stringDelimiter : String
  wordChars : String
  deriving DecidableEq, Repr

def stringOr (fault : Fault) (accept : String → Bool) (value : Option String) :
    Except Fault String :=
  match value with
  | some s => if accept s then .ok s else .error fault
  | none => .error fault

/-- The comment character may be neither in the delimiter nor in a name, and the first character of
the delimiter in no name either. -/
def strings (settings : Toml.Entries) (base : Mode) : Except Fault Strings := do
  let name ← stringOr .badName (· ≠ "") (setting settings "name" base.name)
  let comment ← stringOr .badCommentStart (·.length = 1)
    (setting settings "comment_start" base.commentStart)
  let delimiter ← stringOr .badDelimiter (· ≠ "")
    (setting settings "string_delimiter" base.stringDelimiter)
  if comment.toList.any (delimiter.toList.contains ·) then throw .commentInDelimiter
  let wordChars ← stringOr .badWordChars (fun _ => true)
    (setting settings "word_chars" base.wordChars)
  if (comment.toList ++ delimiter.toList.take 1).any (wordChars.toList.contains ·)
    then throw .wordCharsClash
  return ⟨name, comment, delimiter, wordChars⟩

/-- The dialect takes the name of the mode where any of its words are configured. -/
def mode (config : Toml.Entries) (base : Mode) : Except Fault Mode := do
  let (d, touched) ← dialect config base.dialect
  let s ← strings (← settings config) base
  return { base with
    name := s.name
    dialect := if touched then d.renamed s.name else d
    commentStart := s.commentStart
    stringDelimiter := s.stringDelimiter
    wordChars := s.wordChars }

def outputFormat (config : Toml.Entries) : Option String :=
  match config.get? "output" with
  | some (.table entries) => (Toml.Entries.get? entries "format").bind asString?
  | _ => none

end Config

end OrsonHighlight
