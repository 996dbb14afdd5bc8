import OrsonHighlight.Classification

set_option autoImplicit false

namespace OrsonHighlight.Json

/-- The values that occur in the document. Its strings are plain words, which need no escape. -/
inductive Value where
  | number (n : Int)
  | word (s : String)
  | boolean (b : Bool)
  | array (items : List Value)
  | object (fields : List (String × Value))

def quoted (s : String) : List Char := '"' :: (s.toList ++ ['"'])

def newline (depth : Nat) : List Char := '\n' :: List.replicate (2 * depth) ' '

/-- Written items on lines of their own; without any the brackets meet. -/
def enclose (opener closer : Char) (depth : Nat) : List (List Char) → List Char
  | [] => [opener, closer]
  | item :: rest =>
    opener ::
      (newline (depth + 1) ++ item ++ rest.flatMap (fun i => ',' :: (newline (depth + 1) ++ i)) ++
      newline depth ++ [closer])

mutual

def Value.write (depth : Nat) : Value → List Char
  | .number n => (toString n).toList
  | .word s => quoted s
  | .boolean b => (if b then "true" else "false").toList
  | .array items => enclose '[' ']' depth (writeItems (depth + 1) items)
  | .object fields => enclose '\x7b' '\x7d' depth (writeFields (depth + 1) fields)

def writeItems (depth : Nat) : List Value → List (List Char)
  | [] => []
  | v :: rest => v.write depth :: writeItems depth rest

def writeFields (depth : Nat) : List (String × Value) → List (List Char)
  | [] => []
  | (key, v) :: rest => (quoted key ++ ':' :: ' ' :: v.write depth) :: writeFields depth rest

end

def span (s : Span) : Value :=
  .object [("start", .number s.start), ("end", .number s.stop), ("class", .word s.cls.lowerName)]

def region (r : Region) : Value :=
  .object [("kind", .word r.kind.lowerName), ("open", .number r.opening),
    ("close", .number r.closing), ("terminated", .boolean r.terminated)]

def classification (r : Classification) : Value :=
  .object [("range", .array [.number r.start, .number r.stop]),
    ("spans", .array (r.spans.map span)),
    ("regions", .array (r.regions.map region)),
    ("fences", .object (r.fences.map fun f => (toString f.1, .word f.2.lowerName)))]

def render (r : Classification) : String := String.ofList ((classification r).write 0 ++ ['\n'])

end OrsonHighlight.Json
