import Mathlib.Data.List.TakeWhile
import OrsonHighlight.Cli.Options
import OrsonHighlight.Editor.Session
import OrsonHighlight.Proofs.AcceptedModes

/-!
Which mode a file gets. Of all the modes registered so far the last one that lists the file's
extension has it, in whatever case either is written, and an editor finds the same mode by a
document's name as the command line by the path of its input.
-/

set_option autoImplicit false

namespace OrsonHighlight

/-- What stands after the last slash, and everything where there is none. -/
def IsLastPart (s part : String) : Prop :=
  '/' ∉ part.toList ∧ (s = part ∨ ∃ front, s.toList = front ++ '/' :: part.toList)

namespace IsLastPart

variable {s part : String}

theorem self (h : IsLastPart s part) : IsLastPart part part := ⟨h.1, .inl rfl⟩

theorem exists_splitAt (h : IsLastPart s part) :
    ∃ pieces, splitAt '/' s.toList = pieces ++ [part.toList] := by
  obtain ⟨hslash, rfl | ⟨front, hfront⟩⟩ := h
  · exact ⟨[], splitAt_of_not_mem hslash⟩
  · exact ⟨splitAt '/' front, by rw [hfront, splitAt_append_sep, splitAt_of_not_mem hslash]⟩

theorem takeWhile_reverse (h : IsLastPart s part) :
    (s.toList.reverse.takeWhile (· ≠ '/')).reverse = part.toList := by
  have hall : ∀ c ∈ part.toList.reverse, decide (c ≠ '/') = true := by
    intro c hc
    have hne : c ≠ '/' := fun heq => h.1 (heq ▸ List.mem_reverse.1 hc)
    simpa using hne
  obtain ⟨-, rfl | ⟨front, hfront⟩⟩ := h
  · rw [List.takeWhile_eq_self_iff.2 hall, List.reverse_reverse]
  · rw [hfront, List.reverse_append, List.reverse_cons, List.append_assoc,
      List.takeWhile_append_of_pos hall]
    simp

theorem name_ofString (h : IsLastPart s part) (hne : part ≠ "") (hdot : part ≠ ".") :
    (Path.ofString s).name = part := by
  obtain ⟨pieces, hcut⟩ := h.exists_splitAt
  have hkept : part.toList ≠ [] ∧ part.toList ≠ ['.'] := by
    refine ⟨fun hnil => hne (String.toList_eq_nil_iff.1 hnil), fun heq => hdot ?_⟩
    exact String.toList_inj.1 heq
  simp [Path.name, Path.ofString, hcut, hkept, List.filter_append]

end IsLastPart

def Mode.serves (m : Mode) (p : Path) : Bool :=
  m.fileExtensions.any fun ext => Unicode.lowercase ext == Unicode.lowercase p.suffix

namespace Registry

theorem lookup_cons (key : String) (m : Mode) (r : Registry) (p : Path) :
    lookup ((key, m) :: r) p = if key == Unicode.lowercase p.suffix then some m
      else lookup r p := by
  unfold lookup
  rw [List.find?_cons]
  cases hkey : key == Unicode.lowercase p.suffix with
  | true => simp [Path.suffixKey, hkey]
  | false => simp [Path.suffixKey, hkey]

theorem lookup_register (r : Registry) (m : Mode) (p : Path) :
    (r.register m).lookup p = if m.serves p then some m else r.lookup p := by
  unfold register Mode.serves
  induction m.fileExtensions generalizing r with
  | nil => simp
  | cons ext exts ih =>
    rw [List.foldl_cons, ih, lookup_cons, List.any_cons]
    cases hext : Unicode.lowercase ext == Unicode.lowercase p.suffix with
    | true => simp
    | false => simp

def registered (ms : List Mode) : Registry := ms.foldl register initial

theorem lookup_foldl_register (ms : List Mode) (r : Registry) (p : Path) :
    (ms.foldl register r).lookup p = ((ms.filter (·.serves p)).getLast?).or (r.lookup p) := by
  induction ms generalizing r with
  | nil => simp
  | cons m ms ih =>
    rw [List.foldl_cons, ih, lookup_register, List.filter_cons]
    cases hserves : m.serves p with
    | true => cases hlast : (ms.filter (·.serves p)).getLast? <;> simp [List.getLast?_cons, hlast]
    | false => simp

theorem lookup_registered (ms : List Mode) (p : Path) :
    (registered ms).lookup p = ((Mode.orson :: ms).filter (·.serves p)).getLast? := by
  have hlookup := lookup_foldl_register (Mode.orson :: ms) [] p
  rw [show lookup [] p = none from rfl, Option.or_none] at hlookup
  exact hlookup

theorem modeFor_eq_of_name_eq (r : Registry) {p p' : Path} (h : p.name = p'.name) :
    r.modeFor p = r.modeFor p' := by
  simp [modeFor, lookup, Path.suffixKey, Path.suffix, h]

end Registry

theorem Editor.modeFor_eq {s part : String} (h : IsLastPart s part) (hne : part ≠ "")
    (hdot : part ≠ ".") (r : Registry) : Editor.modeFor r s = r.modeFor (Path.ofString s) := by
  unfold Editor.modeFor
  rw [h.takeWhile_reverse, String.ofList_toList]
  exact r.modeFor_eq_of_name_eq
    ((h.self.name_ofString hne hdot).trans (h.name_ofString hne hdot).symm)

theorem Cli.configuredMode_of_options {r : Registry} {args : Cli.Arguments} {config : Toml.Entries}
    {o : Cli.Options} (h : Cli.Options.of r args config = .ok o) :
    Cli.configuredMode (Cli.configPath args) config (r.modeFor (Path.ofString args.input)) =
      .ok o.mode := by
  obtain ⟨m, hm, ho⟩ := bind_eq_ok_iff.1 h
  obtain ⟨format, -, ho⟩ := bind_eq_ok_iff.1 ho
  obtain ⟨range, -, ho⟩ := bind_eq_ok_iff.1 ho
  obtain rfl := Except.ok.inj ho
  exact hm

namespace Registry

/-- What is answered after the registrations of `history`. The editor takes the mode for its
document from the same answers as the command line the mode that a configuration is laid over. -/
structure Answers (history : List Mode) (r : Registry) : Prop where
  last : ∀ p, r.lookup p = (history.filter (·.serves p)).getLast?
  register : ∀ m p, (r.register m).lookup p = if m.serves p then some m else r.lookup p
  editor : ∀ s part, IsLastPart s part → part ≠ "" → part ≠ "." →
    Editor.modeFor r s = r.modeFor (Path.ofString s)
  commandLine : ∀ args part config o, IsLastPart args.input part → part ≠ "" → part ≠ "." →
    Cli.Options.of r args config = .ok o →
    Cli.configuredMode (Cli.configPath args) config (Editor.modeFor r args.input) = .ok o.mode

theorem answers_registered (ms : List Mode) : (registered ms).Answers (Mode.orson :: ms) where
  last := lookup_registered ms
  register := lookup_register (registered ms)
  editor s part h hne hdot := Editor.modeFor_eq h hne hdot (registered ms)
  commandLine args part config o h hne hdot ho := by
    rw [Editor.modeFor_eq h hne hdot (registered ms)]
    exact Cli.configuredMode_of_options ho

example : ((registered [⟨"text", [".OS", ".Txt"], .orson, "#", "\"", "(", ")", "_"⟩]).lookup
    (Path.ofString "a//./b.oS")).map (·.name) = some "text" := by decide +kernel

end Registry

end OrsonHighlight
