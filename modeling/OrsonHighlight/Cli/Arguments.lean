import OrsonHighlight.Cli.Switch
import OrsonHighlight.Text.Quoted
import OrsonHighlight.Unicode.DecimalDigit

set_option autoImplicit false

namespace OrsonHighlight.Cli

/-- What a switch that takes a value was given. A divider in the place of its value leaves it blank:
the switch was given and names nothing. -/
inductive Setting where
  | unset
  | blank
  | text (s : String)
  deriving DecidableEq, Repr

namespace Setting

def ofValue (v : String) : Setting := if v = "--" then .blank else .text v

def text? : Setting → Option String
  | text s => if s = "" then none else some s
  | _ => none

end Setting

structure Arguments where
  input : String
  output : Setting
  format : Setting
  range : Setting
  config : Setting
  debug : Bool
  verbose : Bool
  deriving DecidableEq, Repr

inductive UsageError where
  | ambiguous (word : String) (candidates : List String)
  | ignoredValue (s : Switch) (value : String)
  | valueMissing (s : Switch)
  | invalidFormat (name : String)
  | inputMissing
  | unrecognized (words : List String)
  deriving DecidableEq, Repr

namespace UsageError

def ofSwitch (s : Switch) (complaint : String) : String :=
  "argument " ++ s.title ++ ": " ++ complaint

def message : UsageError → String
  | ambiguous word candidates =>
    "ambiguous option: " ++ word ++ " could match " ++ ", ".intercalate candidates
  | ignoredValue s value => ofSwitch s ("ignored explicit argument " ++ Quoted.encodeString value)
  | valueMissing s => ofSwitch s "expected one argument"
  | invalidFormat name =>
    ofSwitch .format ("invalid choice: " ++ Quoted.encodeString name ++ " (choose from " ++
      ", ".intercalate (OutputFormat.all.map fun f => Quoted.encodeString f.name) ++ ")")
  | inputMissing => "the following arguments are required: input"
  | unrecognized words => "unrecognized arguments: " ++ " ".intercalate words

def report (e : UsageError) : String := usage ++ "orsonlex: error: " ++ e.message ++ "\n"

end UsageError

inductive Stop where
  | help
  | error (e : UsageError)
  deriving DecidableEq, Repr

/-- What a word is taken for; a switch that is not known has none. A value may stand in the same
word as its switch, after an equals sign or right behind the letter. -/
inductive Word where
  | plain
  | divider
  | switch (s : Option Switch) (letter : Bool) (attached : Option (List Char))
  deriving DecidableEq, Repr

namespace Word

/-- A minus and a number, which has digits of any script and at most one dot. A line end after it
does not count. -/
def isNegativeNumber (w : List Char) : Bool :=
  let isDigit := fun c => (Unicode.digitValue? c).isSome
  let body := if w.getLast? = some '\n' then w.dropLast else w
  match body with
  | '-' :: rest =>
    match rest.dropWhile isDigit with
    | [] => !rest.isEmpty
    | '.' :: fraction => !fraction.isEmpty && fraction.all isDigit
    | _ => false
  | _ => false

def splitEquals (w : List Char) : List Char × Option (List Char) :=
  match w.dropWhile (· ≠ '=') with
  | _ :: value => (w.takeWhile (· ≠ '='), some value)
  | [] => (w, none)

def unknown (w : List Char) : Word :=
  if isNegativeNumber w || w.contains ' ' then .plain else .switch none false none

def abbreviated (w : List Char) : Except UsageError Word :=
  let (name, value) := splitEquals w
  match Switch.spellings.filter fun s => name.isPrefixOf s.1.toList with
  | [] => .ok (unknown w)
  | [s] => .ok (.switch (some s.2) false value)
  | many => .error (.ambiguous (String.ofList w) (many.map (·.1)))

def lettered (w : List Char) : Word :=
  match Switch.ofSpelling? (String.ofList (w.take 2)) with
  | some s => .switch (some s) true (some (w.drop 2))
  | none => unknown w

def isLetter (w : List Char) : Bool := (w.drop 1).head? != some '-'

def ofChars (w : List Char) : Except UsageError Word :=
  if w.head? ≠ some '-' ∨ w.length = 1 then .ok .plain
  else match Switch.ofSpelling? (String.ofList w) with
    | some s => .ok (.switch (some s) (isLetter w) none)
    | none =>
      let (name, value) := splitEquals w
      match value, Switch.ofSpelling? (String.ofList name) with
      | some v, some s => .ok (.switch (some s) (isLetter w) (some v))
      | _, _ => if isLetter w then .ok (lettered w) else abbreviated w

def ofStrings : List String → Except UsageError (List (String × Word))
  | [] => .ok []
  | w :: rest =>
    if w = "--" then .ok ((w, .divider) :: rest.map fun v => (v, .plain))
    else do
      let word ← ofChars w.toList
      return (w, word) :: (← ofStrings rest)

end Word

/-- What one word of switches asks for: flags in order, and at the end a switch with its value or
still without one. -/
structure Cluster where
  flags : List Switch
  last : Option (Switch × Option String)
  deriving DecidableEq, Repr

namespace Cluster

def cons (s : Switch) (c : Cluster) : Cluster := { c with flags := s :: c.flags }

def bare (s : Switch) : Cluster := if s.takesValue then ⟨[], some (s, none)⟩ else ⟨[s], none⟩

/-- A switch with a value in its word. A flag by letter takes none: what follows it are more
letters, flags up to one that takes what is left as its value. -/
def attached (s : Switch) (letter : Bool) : List Char → Except UsageError Cluster
  | [] => if s.takesValue then .ok ⟨[], some (s, some "")⟩ else .error (.ignoredValue s "")
  | c :: rest =>
    if s.takesValue then .ok ⟨[], some (s, some (String.ofList (c :: rest)))⟩
    else if !letter then .error (.ignoredValue s (String.ofList (c :: rest)))
    else match Switch.ofSpelling? (String.ofList ['-', c]) with
      | none => .error (.ignoredValue s (String.ofList (c :: rest)))
      | some next => (if rest = [] then .ok (bare next) else attached next true rest).map (cons s)

def ofSwitch (s : Switch) (letter : Bool) : Option (List Char) → Except UsageError Cluster
  | none => .ok (bare s)
  | some value => attached s letter value

end Cluster

structure Progress where
  arguments : Arguments
  input : Option String
  extras : List String
  deriving DecidableEq, Repr

namespace Progress

def start : Progress := ⟨⟨"", .unset, .unset, .unset, .unset, false, false⟩, none, []⟩

def addExtra (p : Progress) (w : String) : Progress := { p with extras := p.extras ++ [w] }

def flag (p : Progress) : Switch → Except Stop Progress
  | .help => .error .help
  | .debug => .ok { p with arguments := { p.arguments with debug := true } }
  | .verbose => .ok { p with arguments := { p.arguments with verbose := true } }
  | _ => .ok p

def checkFormat : Setting → Except Stop Unit
  | .text name =>
    if (OutputFormat.ofName? name).isSome then .ok () else .error (.error (.invalidFormat name))
  | _ => .ok ()

def value (p : Progress) (v : Setting) : Switch → Except Stop Progress
  | .output => .ok { p with arguments := { p.arguments with output := v } }
  | .format => (checkFormat v).map fun _ => { p with arguments := { p.arguments with format := v } }
  | .range => .ok { p with arguments := { p.arguments with range := v } }
  | .config => .ok { p with arguments := { p.arguments with config := v } }
  | _ => .ok p

def take (p : Progress) (flags : List Switch) (last : Option (Switch × String)) :
    Except Stop Progress := do
  let p ← flags.foldlM flag p
  match last with
  | some (s, v) => p.value (.ofValue v) s
  | none => return p

/-- Reads the words from the front. The first plain word is the input, and takes a divider next to
it along; every other is one too many. A switch looks for its value before any flag in its word is
taken. -/
def read (p : Progress) : List (String × Word) → Except Stop Progress
  | [] => .ok p
  | (w, .plain) :: rest =>
    match p.input, rest with
    | some _, rest => read (p.addExtra w) rest
    | none, (_, .divider) :: rest => read { p with input := some w } rest
    | none, rest => read { p with input := some w } rest
  | (w, .divider) :: rest =>
    match p.input, rest with
    | none, (v, _) :: rest => read { p with input := some v } rest
    | _, rest => read (p.addExtra w) rest
  | (w, .switch none _ _) :: rest => read (p.addExtra w) rest
  | (_, .switch (some s) letter value?) :: rest =>
    match Cluster.ofSwitch s letter value? with
    | .error e => .error (.error e)
    | .ok c =>
      match c.last, rest with
      | some (last, none), (v, .plain) :: rest => do read (← p.take c.flags (some (last, v))) rest
      | some (last, none), _ => .error (.error (.valueMissing last))
      | some (last, some v), rest => do read (← p.take c.flags (some (last, v))) rest
      | none, rest => do read (← p.take c.flags none) rest

def finish (p : Progress) : Except Stop Arguments :=
  match p.input, p.extras with
  | none, _ => .error (.error .inputMissing)
  | some input, [] => .ok { p.arguments with input }
  | some _, extras => .error (.error (.unrecognized extras))

end Progress

def Arguments.parse (argv : List String) : Except Stop Arguments :=
  match Word.ofStrings argv with
  | .error e => .error (.error e)
  | .ok words => do (← Progress.start.read words).finish

end OrsonHighlight.Cli
