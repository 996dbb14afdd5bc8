import OrsonHighlight.Proofs.Fences
import OrsonHighlight.Proofs.Literals
import OrsonHighlight.Render.Json

/-!
JSON documents read back. The reader takes any white space between the parts of a value and refuses
an object that names a key twice; it finds the value that was written, and in that the
classification.
-/

set_option autoImplicit false

namespace OrsonHighlight.Json

def isBlank (c : Char) : Bool := c == ' ' || c == '\n' || c == '\t' || c == '\r'

def skip (cs : List Char) : List Char := cs.dropWhile isBlank

def isPlain (c : Char) : Bool := c ≠ '"' && c ≠ '\\' && 0x20 ≤ c.toNat

def readWord? : List Char → Option (String × List Char)
  | '"' :: cs =>
    match cs.dropWhile isPlain with
    | '"' :: rest => some (String.ofList (cs.takeWhile isPlain), rest)
    | _ => none
  | _ => none

section Sequences

variable {α : Type} (item : List Char → Option (α × List Char)) (closer : Char)

def readItems? : Nat → List Char → Option (List α × List Char)
  | 0, _ => none
  | fuel + 1, cs =>
    (item (skip cs)).bind fun (x, rest) =>
      match skip rest with
      | [] => none
      | c :: rest =>
        if c = closer then some ([x], rest)
        else if c = ',' then (readItems? fuel rest).map fun (xs, rest) => (x :: xs, rest)
        else none

def readEnclosed? (cs : List Char) : Option (List α × List Char) :=
  if (skip cs).head? = some closer then some ([], (skip cs).tail)
    else readItems? item closer cs.length cs

end Sequences

def readField? (value : List Char → Option (Value × List Char)) (cs : List Char) :
    Option ((String × Value) × List Char) :=
  (readWord? cs).bind fun (key, rest) =>
    match skip rest with
    | ':' :: rest => (value (skip rest)).map fun (v, rest) => ((key, v), rest)
    | _ => none

def readValue? : Nat → List Char → Option (Value × List Char)
  | 0, _ => none
  | fuel + 1, cs =>
    match cs with
    | '[' :: rest =>
      (readEnclosed? (readValue? fuel) ']' rest).map fun (items, rest) => (.array items, rest)
    | '\x7b' :: rest =>
      (readEnclosed? (readField? (readValue? fuel)) '\x7d' rest).bind fun (fields, rest) =>
        if (fields.map (·.1)).Nodup then some (.object fields, rest) else none
    | '"' :: _ => (readWord? cs).map fun (s, rest) => (.word s, rest)
    | 't' :: 'r' :: 'u' :: 'e' :: rest => some (.boolean true, rest)
    | 'f' :: 'a' :: 'l' :: 's' :: 'e' :: rest => some (.boolean false, rest)
    | _ => (Decimal.integer? cs).map fun (n, rest) => (.number n, rest)

def read? (cs : List Char) : Option Value :=
  match readValue? cs.length (skip cs) with
  | some (v, rest) => if skip rest = [] then some v else none
  | none => none

theorem skip_cons {c : Char} (h : isBlank c = false) (cs : List Char) :
    skip (c :: cs) = c :: cs := by
  simp [skip, h]

theorem skip_newline_append (depth : Nat) (cs : List Char) :
    skip (newline depth ++ cs) = skip cs := by
  have hblank : ∀ c ∈ newline depth, isBlank c = true := by
    intro c hc
    rcases List.mem_cons.1 hc with rfl | hc
    · rfl
    · rw [(List.mem_replicate.1 hc).2]
      rfl
  rw [skip, List.dropWhile_append_of_pos hblank]
  rfl

def Begins (closer : Char) (w : List Char) : Prop :=
  ∃ c cs, w = c :: cs ∧ isBlank c = false ∧ c ≠ closer

theorem Begins.skip_append {closer : Char} {w : List Char} (h : Begins closer w)
    (rest : List Char) :
    skip (w ++ rest) = w ++ rest := by
  obtain ⟨c, cs, rfl, hblank, -⟩ := h
  exact skip_cons hblank (cs ++ rest)

def PlainWord (s : String) : Prop := ∀ c ∈ s.toList, isPlain c = true

instance (s : String) : Decidable (PlainWord s) :=
  decidable_of_iff (s.toList.all isPlain = true) List.all_eq_true

theorem readWord?_quoted {s : String} (h : PlainWord s) (rest : List Char) :
    readWord? (quoted s ++ rest) = some (s, rest) := by
  have hquote : ¬ isPlain '"' = true := by decide
  have hcut : quoted s ++ rest = '"' :: (s.toList ++ '"' :: rest) := by simp [quoted]
  rw [hcut, readWord?, List.dropWhile_append_of_pos h, List.dropWhile_cons_of_neg hquote,
    List.takeWhile_append_of_pos h, List.takeWhile_cons_of_neg hquote, List.append_nil,
    String.ofList_toList]
  rfl

theorem apart_cons {c : Char} (h : c.isDigit = false) (cs : List Char) :
    Decimal.Apart (c :: cs) := by
  intro c' hc'
  rw [← Option.some.inj hc']
  exact h

section Sequences

variable {α : Type} {item : List Char → Option (α × List Char)} {closer : Char}
    {write : α → List Char}

/-- An item is read, if no digit follows, as what was written. -/
def Reads (item : List Char → Option (α × List Char)) (closer : Char)
    (write : α → List Char) (x : α) : Prop :=
  Begins closer (write x) ∧ ∀ rest, Decimal.Apart rest → item (write x ++ rest) = some (x, rest)

theorem readItems?_last {fuel : Nat} {cs rest tail : List Char} {x : α}
    (hitem : item (skip cs) = some (x, rest))
    (hrest : skip rest = closer :: tail) :
    readItems? item closer (fuel + 1) cs = some ([x], tail) := by
  simp [readItems?, hitem, hrest]

theorem readItems?_more (hcloser : closer ≠ ',') {fuel : Nat} {cs rest tail : List Char} {x : α}
    (hitem : item (skip cs) = some (x, rest)) (hrest : skip rest = ',' :: tail) :
    readItems? item closer (fuel + 1) cs =
      (readItems? item closer fuel tail).map fun (xs, rest) => (x :: xs, rest) := by
  simp [readItems?, hitem, hrest, hcloser.symm]

/-- Items on lines of their own from one of them on, the closing bracket on a line of its own, and
what follows. -/
def sequence (write : α → List Char) (closer : Char) (inner outer : Nat) (rest : List Char) :
    α → List α → List Char
  | x, [] => newline inner ++ (write x ++ (newline outer ++ closer :: rest))
  | x, y :: ys => newline inner ++ (write x ++ ',' :: sequence write closer inner outer rest y ys)

theorem enclose_cons_append (opener : Char) (depth : Nat) (x : α) (xs : List α) (rest : List Char) :
    enclose opener closer depth ((x :: xs).map write) ++ rest =
      opener :: sequence write closer (depth + 1) depth rest x xs := by
  induction xs generalizing x with
  | nil => simp [enclose, sequence]
  | cons y ys ih => simpa [enclose, sequence] using ih y

theorem length_lt_length_sequence (inner outer : Nat) (rest : List Char) (x : α) (xs : List α) :
    xs.length < (sequence write closer inner outer rest x xs).length := by
  induction xs generalizing x with
  | nil =>
    simp only [sequence, List.length_append, List.length_cons, List.length_nil]
    omega
  | cons y ys ih =>
    have hlt := ih y
    simp only [sequence, List.length_append, List.length_cons]
    omega

theorem Reads.item_newline {x : α} (h : Reads item closer write x) (inner : Nat) {next : List Char}
    (hnext : Decimal.Apart next) :
    item (skip (newline inner ++ (write x ++ next))) = some (x, next) := by
  rw [skip_newline_append, h.1.skip_append, h.2 next hnext]

theorem readItems?_sequence (hblank : isBlank closer = false) (hcomma : closer ≠ ',')
    {inner outer : Nat}
    {rest : List Char} {x : α} {xs : List α}
    (h : ∀ y ∈ x :: xs, Reads item closer write y) {fuel : Nat} (hfuel : xs.length < fuel) :
    readItems? item closer fuel (sequence write closer inner outer rest x xs) =
      some (x :: xs, rest) := by
  induction xs generalizing x fuel with
  | nil =>
    obtain ⟨fuel, rfl⟩ : ∃ n, fuel = n + 1 := ⟨fuel - 1, by simp at hfuel; omega⟩
    exact readItems?_last ((h x (by simp)).item_newline inner (apart_cons (by decide) _))
      ((skip_newline_append outer _).trans (skip_cons hblank rest))
  | cons y ys ih =>
    obtain ⟨fuel, rfl⟩ : ∃ n, fuel = n + 1 := ⟨fuel - 1, by simp at hfuel; omega⟩
    have ih := ih (fun z hz => h z (List.mem_cons_of_mem x hz)) (Nat.lt_of_succ_lt_succ hfuel)
    rw [sequence,
      readItems?_more hcomma ((h x (by simp)).item_newline inner (apart_cons (by decide) _))
      (skip_cons (by decide) _), ih]
    rfl

theorem readEnclosed?_enclose (hblank : isBlank closer = false) (hcomma : closer ≠ ',')
    (opener : Char) (depth : Nat)
    {xs : List α} (h : ∀ x ∈ xs, Reads item closer write x) (rest : List Char) :
    ∃ tail, enclose opener closer depth (xs.map write) ++ rest = opener :: tail ∧
      readEnclosed? item closer tail = some (xs, rest) := by
  cases xs with
  | nil => exact ⟨closer :: rest, rfl, by simp [readEnclosed?, skip_cons hblank]⟩
  | cons x xs =>
    refine ⟨_, enclose_cons_append opener depth x xs rest, ?_⟩
    have hhead : (skip (sequence write closer (depth + 1) depth rest x xs)).head? ≠
        some closer := by
      obtain ⟨c, cs, hw, hc, hne⟩ := (h x (List.mem_cons_self ..)).1
      cases xs with
      | nil => simpa [sequence, skip_newline_append, hw, skip_cons hc] using hne
      | cons y ys => simpa [sequence, skip_newline_append, hw, skip_cons hc] using hne
    rw [readEnclosed?, if_neg hhead]
    exact readItems?_sequence hblank hcomma h
      (length_lt_length_sequence (depth + 1) depth rest x xs)

end Sequences

theorem writeItems_eq (depth : Nat) (items : List Value) :
    writeItems depth items = items.map (·.write depth) := by
  induction items with
  | nil => rfl
  | cons v rest ih => rw [writeItems, ih, List.map_cons]

def writeField (depth : Nat) (f : String × Value) : List Char :=
  quoted f.1 ++ ':' :: ' ' :: f.2.write depth

theorem writeFields_eq (depth : Nat) (fields : List (String × Value)) :
    writeFields depth fields = fields.map (writeField depth) := by
  induction fields with
  | nil => rfl
  | cons f rest ih => rw [writeFields, ih, List.map_cons, writeField]

theorem length_lt_length_enclose {opener closer : Char} {depth : Nat}
    {items : List (List Char)} {w : List Char}
    (h : w ∈ items) : w.length < (enclose opener closer depth items).length := by
  cases items with
  | nil => simp at h
  | cons item rest =>
    simp only [enclose, List.length_cons, List.length_append]
    rcases List.mem_cons.1 h with rfl | h
    · omega
    · have hmem : ',' :: (newline (depth + 1) ++ w) ∈ rest.map
          fun i => ',' :: (newline (depth + 1) ++ i) :=
        List.mem_map_of_mem h
      have hle := (List.sublist_flatten_of_mem hmem).length_le
      rw [← List.flatMap_def] at hle
      simp only [List.length_cons, List.length_append] at hle
      omega

/-- Words that need no escape, and objects that name no key twice. -/
inductive Value.Plain : Value → Prop where
  | number (n : Int) : Plain (.number n)
  | word {s : String} : PlainWord s → Plain (.word s)
  | boolean (b : Bool) : Plain (.boolean b)
  | array {items : List Value} : (∀ v ∈ items, Plain v) → Plain (.array items)
  | object {fields : List (String × Value)} : (∀ key ∈ fields.map (·.1), PlainWord key) →
      (fields.map (·.1)).Nodup → (∀ f ∈ fields, Plain f.2) → Plain (.object fields)

theorem begins_enclose {opener : Char} (hblank : isBlank opener = false)
    (hopener : opener ≠ ']') (closer : Char)
    (depth : Nat) (items : List (List Char)) : Begins ']' (enclose opener closer depth items) := by
  cases items <;> exact ⟨opener, _, rfl, hblank, hopener⟩

theorem Value.begins_write (v : Value) (depth : Nat) : Begins ']' (v.write depth) := by
  cases v with
  | number n =>
    obtain ⟨c, cs, heq, hc⟩ := Decimal.exists_toString_eq_cons n
    refine ⟨c, cs, heq, ?_, ?_⟩
    · rcases hc with rfl | hc
      · rfl
      · cases hblank : isBlank c with
        | false => rfl
        | true =>
          simp only [isBlank, Bool.or_eq_true, beq_iff_eq] at hblank
          obtain ((rfl | rfl) | rfl) | rfl := hblank <;> simp at hc
    · rintro rfl
      simp at hc
  | word s => exact ⟨'"', _, rfl, rfl, by decide⟩
  | boolean b => cases b <;> exact ⟨_, _, rfl, rfl, by decide⟩
  | array items => exact begins_enclose rfl (by decide) ']' depth _
  | object fields => exact begins_enclose rfl (by decide) '\x7d' depth _

theorem readValue?_number {fuel : Nat} (n : Int) {rest : List Char} (hrest : Decimal.Apart rest) :
    readValue? (fuel + 1) ((toString n).toList ++ rest) = some (.number n, rest) := by
  have hread := Decimal.integer?_toString n hrest
  obtain ⟨c, cs, heq, hc⟩ := Decimal.exists_toString_eq_cons n
  rw [heq] at hread ⊢
  unfold readValue?
  split
  all_goals first
    | (rw [hread]; rfl)
    | (rename_i hcs; obtain ⟨rfl, -⟩ := List.cons.inj hcs; simp at hc)

theorem Reads.field {value : List Char → Option (Value × List Char)}
    {f : String × Value} {depth : Nat} (hkey : PlainWord f.1)
    (hvalue : ∀ rest, Decimal.Apart rest → value (f.2.write depth ++ rest) = some (f.2, rest)) :
    Reads (readField? value) '\x7d' (writeField depth) f := by
  refine ⟨⟨'"', _, rfl, rfl, by decide⟩, fun rest hrest => ?_⟩
  have hskip : skip (':' :: ' ' :: (f.2.write depth ++ rest)) =
      ':' :: ' ' :: (f.2.write depth ++ rest) :=
    skip_cons rfl _
  have hskip' : skip (' ' :: (f.2.write depth ++ rest)) = f.2.write depth ++ rest :=
    (f.2.begins_write depth).skip_append rest
  simp only [writeField, List.append_assoc, readField?, readWord?_quoted hkey,
    Option.bind_some, List.cons_append, hskip, hskip', hvalue rest hrest]
  rfl

theorem Value.exists_fuel (v : Value) {depth fuel : Nat} (h : (v.write depth).length ≤ fuel) :
    ∃ n, fuel = n + 1 := by
  obtain ⟨c, cs, heq, -⟩ := v.begins_write depth
  rw [heq, List.length_cons] at h
  exact ⟨fuel - 1, by omega⟩

theorem Value.Plain.readValue?_write {v : Value} (h : v.Plain) (depth : Nat) {fuel : Nat}
    (hfuel : (v.write depth).length ≤ fuel) {rest : List Char} (hrest : Decimal.Apart rest) :
    readValue? fuel (v.write depth ++ rest) = some (v, rest) := by
  induction h generalizing depth fuel rest with
  | number n =>
    obtain ⟨fuel, rfl⟩ := (Value.number n).exists_fuel hfuel
    exact readValue?_number n hrest
  | @word s hs =>
    obtain ⟨fuel, rfl⟩ := (Value.word s).exists_fuel hfuel
    have hread := readWord?_quoted hs rest
    rw [Value.write]
    simp only [quoted, List.cons_append] at hread ⊢
    rw [readValue?, hread]
    rfl
  | boolean b =>
    obtain ⟨fuel, rfl⟩ := (Value.boolean b).exists_fuel hfuel
    cases b <;> rfl
  | @array items hitems ih =>
    obtain ⟨fuel, rfl⟩ := (Value.array items).exists_fuel hfuel
    rw [Value.write, writeItems_eq] at hfuel ⊢
    have hreads : ∀ v ∈ items, Reads (readValue? fuel) ']' (·.write (depth + 1)) v := by
      intro v hv
      have hlt := Nat.lt_of_lt_of_le (length_lt_length_enclose (List.mem_map_of_mem hv)) hfuel
      exact ⟨v.begins_write (depth + 1),
        fun rest hrest => ih v hv (depth + 1) (Nat.le_of_lt_succ hlt) hrest⟩
    obtain ⟨tail, htail, hread⟩ := readEnclosed?_enclose rfl (by decide) '[' depth hreads rest
    rw [htail, readValue?, hread]
    rfl
  | @object fields hkeys hnodup hvalues ih =>
    obtain ⟨fuel, rfl⟩ := (Value.object fields).exists_fuel hfuel
    rw [Value.write, writeFields_eq] at hfuel ⊢
    have hreads :
        ∀ f ∈ fields, Reads (readField? (readValue? fuel)) '\x7d' (writeField (depth + 1)) f := by
      intro f hf
      have hlt := Nat.lt_of_lt_of_le (length_lt_length_enclose (List.mem_map_of_mem hf)) hfuel
      rw [writeField, List.length_append, List.length_cons, List.length_cons] at hlt
      exact Reads.field (hkeys f.1 (List.mem_map_of_mem hf))
        fun rest hrest => ih f hf (depth + 1) (by omega) hrest
    obtain ⟨tail, htail, hread⟩ := readEnclosed?_enclose rfl (by decide) '\x7b' depth hreads rest
    rw [htail, readValue?, hread, Option.bind_some]
    exact if_pos hnodup

theorem Value.Plain.read?_write {v : Value} (h : v.Plain) (depth : Nat) :
    read? (v.write depth ++ ['\n']) = some v := by
  have hnext : Decimal.Apart ['\n'] := apart_cons (by decide) []
  have hread := h.readValue?_write depth (Nat.le_add_right _ 1) hnext
  rw [read?, (v.begins_write depth).skip_append, List.length_append, List.length_singleton, hread]
  rfl

namespace Value

def field? (key : String) : Value → Option Value
  | .object fields => (fields.find? (·.1 == key)).map (·.2)
  | _ => none

def integer? : Value → Option Int
  | .number n => some n
  | _ => none

def word? : Value → Option String
  | .word s => some s
  | _ => none

def boolean? : Value → Option Bool
  | .boolean b => some b
  | _ => none

def items? : Value → Option (List Value)
  | .array items => some items
  | _ => none

def fields? : Value → Option (List (String × Value))
  | .object fields => some fields
  | _ => none

end Value

def class? (s : String) : Option TokenClass := TokenClass.all.find? (·.lowerName == s)

def kind? (s : String) : Option RegionKind := [RegionKind.string, .comment].find? (·.lowerName == s)

def fence? (s : String) : Option Fence := [Fence.opening, .closing].find? (·.lowerName == s)

def span? (v : Value) : Option Span := do
  let start ← (← v.field? "start").integer?
  let stop ← (← v.field? "end").integer?
  let cls ← class? (← (← v.field? "class").word?)
  return ⟨start, stop, cls⟩

def region? (v : Value) : Option Region := do
  let kind ← kind? (← (← v.field? "kind").word?)
  let opening ← (← v.field? "open").integer?
  let closing ← (← v.field? "close").integer?
  let terminated ← (← v.field? "terminated").boolean?
  return ⟨kind, opening, closing, terminated⟩

def placedFence? (entry : String × Value) : Option (Int × Fence) := do
  let offset ← Decimal.read? entry.1.toList
  let fence ← fence? (← entry.2.word?)
  return (offset, fence)

/-- The fields are looked up by their keys, in whatever order they stand. -/
def classification? (v : Value) : Option Classification := do
  match ← (← v.field? "range").items? with
  | [start, stop] =>
    let start ← start.integer?
    let stop ← stop.integer?
    let spans ← (← (← v.field? "spans").items?).mapM span?
    let regions ← (← (← v.field? "regions").items?).mapM region?
    let fences ← (← (← v.field? "fences").fields?).mapM placedFence?
    return ⟨start, stop, spans, regions, fences⟩
  | _ => none

theorem mapM_map_eq_some {α β : Type} {f : α → β} {g : β → Option α}
    (h : ∀ x, g (f x) = some x) (xs : List α) :
    (xs.map f).mapM g = some xs := by
  induction xs with
  | nil => rfl
  | cons x xs ih => simp [h, ih]

theorem span?_span (s : Span) : span? (span s) = some s := by
  obtain ⟨start, stop, cls⟩ := s
  cases cls <;> rfl

theorem region?_region (r : Region) : region? (region r) = some r := by
  obtain ⟨kind, opening, closing, terminated⟩ := r
  cases kind <;> rfl

theorem placedFence?_field (f : Int × Fence) :
    placedFence? (toString f.1, .word f.2.lowerName) = some f := by
  obtain ⟨offset, fence⟩ := f
  rw [placedFence?, Decimal.read?_toString]
  cases fence <;> rfl

theorem classification?_classification (r : Classification) :
    classification? (classification r) = some r := by
  have hrange : (classification r).field? "range" =
      some (.array [.number r.start, .number r.stop]) := rfl
  have hspans : (classification r).field? "spans" = some (.array (r.spans.map span)) := rfl
  have hregions : (classification r).field? "regions" = some (.array (r.regions.map region)) := rfl
  have hfences : (classification r).field? "fences" =
      some (.object (r.fences.map fun f => (toString f.1, .word f.2.lowerName))) := rfl
  simp only [classification?, hrange, hspans, hregions, hfences, Option.bind_eq_bind,
    Option.bind_some, Value.items?, Value.fields?, Value.integer?, mapM_map_eq_some span?_span,
    mapM_map_eq_some region?_region, mapM_map_eq_some placedFence?_field]
  rfl

theorem plain_span (s : Span) : (span s).Plain := by
  have hkeys : (∀ key ∈ ["start", "end", "class"], PlainWord key) ∧
      ["start", "end", "class"].Nodup := by decide
  have hcls : PlainWord s.cls.lowerName := by cases s.cls <;> decide
  refine .object hkeys.1 hkeys.2 fun f hf => ?_
  simp only [List.mem_cons, List.not_mem_nil, or_false] at hf
  obtain rfl | rfl | rfl := hf
  · exact .number _
  · exact .number _
  · exact .word hcls

theorem plain_region (r : Region) : (region r).Plain := by
  have hkeys : (∀ key ∈ ["kind", "open", "close", "terminated"], PlainWord key) ∧
      ["kind", "open", "close", "terminated"].Nodup := by decide
  have hkind : PlainWord r.kind.lowerName := by cases r.kind <;> decide
  refine .object hkeys.1 hkeys.2 fun f hf => ?_
  simp only [List.mem_cons, List.not_mem_nil, or_false] at hf
  obtain rfl | rfl | rfl | rfl := hf
  · exact .word hkind
  · exact .number _
  · exact .number _
  · exact .boolean _

theorem toString_injective {a b : Int} (h : toString a = toString b) : a = b := by
  have hread := Decimal.read?_toString a
  rw [h, Decimal.read?_toString] at hread
  exact (Option.some.inj hread).symm

theorem plain_fences {fences : Fences} (h : fences.Ascending) :
    (Value.object (fences.map fun f => (toString f.1, .word f.2.lowerName))).Plain := by
  refine .object ?_ ?_ ?_
  · intro key hkey c hc
    rw [List.map_map] at hkey
    obtain ⟨f, -, rfl⟩ := List.mem_map.1 hkey
    exact Decimal.forall_mem_toString (P := fun c => isPlain c = true) (by decide) (by decide) hc
  · rw [List.map_map]
    exact List.pairwise_map.2
      (h.imp fun {f f'} hlt heq => absurd (toString_injective heq) (by omega))
  · intro field hfield
    obtain ⟨f, -, rfl⟩ := List.mem_map.1 hfield
    exact .word (by cases f.2 <;> decide)

theorem plain_classification {r : Classification} (h : r.fences.Ascending) :
    (classification r).Plain := by
  have hkeys : (∀ key ∈ ["range", "spans", "regions", "fences"], PlainWord key) ∧
      ["range", "spans", "regions", "fences"].Nodup := by decide
  refine .object hkeys.1 hkeys.2 fun f hf => ?_
  simp only [List.mem_cons, List.not_mem_nil, or_false] at hf
  obtain rfl | rfl | rfl | rfl := hf
  · refine .array fun v hv => ?_
    simp only [List.mem_cons, List.not_mem_nil, or_false] at hv
    obtain rfl | rfl := hv
    · exact .number _
    · exact .number _
  · refine .array fun v hv => ?_
    obtain ⟨s, -, rfl⟩ := List.mem_map.1 hv
    exact plain_span s
  · refine .array fun v hv => ?_
    obtain ⟨g, -, rfl⟩ := List.mem_map.1 hv
    exact plain_region g
  · exact plain_fences h

theorem read?_render {r : Classification} (h : r.fences.Ascending) :
    (read? (render r).toList).bind classification? = some r := by
  rw [render, String.toList_ofList, (plain_classification h).read?_write, Option.bind_some,
    classification?_classification]

end OrsonHighlight.Json
