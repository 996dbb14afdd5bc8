set_option autoImplicit false

namespace OrsonHighlight.Toml

/-- Numbers with a fraction and moments keep their text. A document never says `null`. -/
inductive Value where
  | null
  | string (s : String)
  | integer (n : Int)
  | float (text : String)
  | boolean (b : Bool)
  | moment (text : String)
  | array (items : List Value)
  | table (entries : List (String × Value))
  deriving Repr, Inhabited

/-- Entries in the order in which they were made, with one for each key. -/
abbrev Entries := List (String × Value)

def Entries.get? (es : Entries) (key : String) : Option Value := (es.find? (·.1 == key)).map (·.2)

def Entries.put (key : String) (v : Value) : Entries → Entries
  | [] => [(key, v)]
  | (k, old) :: rest => if k = key then (k, v) :: rest else (k, old) :: Entries.put key v rest

end OrsonHighlight.Toml
