import OrsonHighlight.FileSystem
import OrsonHighlight.Proofs.AcceptedModes

/-!
What writing does to a store of files. A path leads to one place before and after; the file there is
made or replaced, as a whole or as far as it can go, and nothing else changes.
-/

set_option autoImplicit false

namespace OrsonHighlight.FileSystem

variable {fs : FileSystem} {place : List String} {node : FileNode}

theorem find?_putNode (place other : List String) (node : FileNode)
    (nodes : List (List String × FileNode)) :
    ((putNode place node nodes).find? (·.1 == other)).map (·.2) =
      if other = place then some node else (nodes.find? (·.1 == other)).map (·.2) := by
  induction nodes with
  | nil =>
    by_cases h : other = place
    · simp [putNode, h]
    · simp [putNode, h, Ne.symm h]
  | cons entry nodes ih =>
    obtain ⟨p, old⟩ := entry
    by_cases hp : p = place
    · by_cases h : other = place
      · simp [putNode, hp, h]
      · simp [putNode, hp, h, Ne.symm h]
    · by_cases hother : p = other
      · simp [putNode, hp, ← hother]
      · simpa [putNode, hp, hother] using ih

theorem at?_put (hplace : place ≠ []) (other : List String) :
    (fs.put place node).at? other = if other = place then some node else fs.at? other := by
  unfold at? put
  by_cases hother : other = []
  · simp [hother, Ne.symm hplace]
  · rw [if_neg hother, if_neg hother]
    exact find?_putNode place other node fs.nodes

theorem putNode_putNode (place : List String) (old node : FileNode)
    (nodes : List (List String × FileNode)) :
    putNode place node (putNode place old nodes) = putNode place node nodes := by
  induction nodes with
  | nil => simp [putNode]
  | cons entry nodes ih =>
    obtain ⟨p, _⟩ := entry
    by_cases hp : p = place
    · simp [putNode, hp]
    · simp [putNode, hp, ih]

theorem put_put (old : FileNode) : (fs.put place old).put place node = fs.put place node := by
  unfold put
  rw [putNode_putNode]

/-- What can be written at the place is a file. -/
def Ordinary (fs : FileSystem) (place : List String) : Prop :=
  fs.at? place = none ∨ ∃ bytes, fs.at? place = some (.file bytes)

theorem Ordinary.ne_directory (h : fs.Ordinary place) : fs.at? place ≠ some .directory := by
  rcases h with h | ⟨bytes, h⟩ <;> simp [h]

theorem Ordinary.ne_nil (h : fs.Ordinary place) : place ≠ [] := by
  rintro rfl
  exact h.ne_directory rfl

theorem mustBeDirectory_put (hplace : fs.Ordinary place) {way : List String}
    (h : fs.mustBeDirectory way = .ok ()) : (fs.put place node).mustBeDirectory way = .ok () := by
  have hway : fs.at? way = some .directory := by
    unfold mustBeDirectory at h
    split at h
    · cases h
    · assumption
    · cases h
  have hne : way ≠ place := fun heq => hplace.ne_directory (heq ▸ hway)
  rw [mustBeDirectory, at?_put hplace.ne_nil, if_neg hne, hway]

theorem walk_put (hplace : fs.Ordinary place) {start found : List String}
    {components : List String} (h : fs.walk start components = .ok found) :
    (fs.put place node).walk start components = .ok found := by
  induction components generalizing start with
  | nil => exact h
  | cons c components ih =>
    obtain ⟨⟨⟩, hdir, h⟩ := bind_eq_ok_iff.1 h
    obtain ⟨next, hnext, h⟩ := bind_eq_ok_iff.1 h
    exact bind_eq_ok_iff.2
      ⟨(), mustBeDirectory_put hplace hdir, bind_eq_ok_iff.2 ⟨next, hnext, ih h⟩⟩

theorem locate_put (hplace : fs.Ordinary place) {p : Path} {found : List String}
    (h : fs.locate p = .ok found) : (fs.put place node).locate p = .ok found := by
  unfold locate at h ⊢
  split at h
  · cases h
  split at h
  · cases h
  rename_i hnull hlong
  rw [if_neg hnull, if_neg hlong]
  exact walk_put hplace h

/-- The file of a path is made or replaced, and everything else is as it was. -/
structure Rewritten (fs : FileSystem) (p : Path) (bytes : List UInt8) (after : FileSystem) :
    Prop where
  place : ∃ place, fs.locate p = .ok place ∧ fs.Ordinary place ∧
    after.at? place = some (.file bytes) ∧ ∀ other, other ≠ place → after.at? other = fs.at? other
  read : after.read p = .ok bytes
  shown : after.shown = fs.shown

theorem rewritten_put {p : Path} (hlocate : fs.locate p = .ok place) (hplace : fs.Ordinary place)
    (bytes : List UInt8) : fs.Rewritten p bytes (fs.put place (.file bytes)) := by
  have hput : ∀ other, (fs.put place (.file bytes)).at? other =
      if other = place then some (.file bytes) else fs.at? other := at?_put hplace.ne_nil
  have hhere : (fs.put place (.file bytes)).at? place = some (.file bytes) := by
    rw [hput, if_pos rfl]
  refine ⟨⟨place, hlocate, hplace, hhere, fun other hne => by rw [hput, if_neg hne]⟩, ?_, rfl⟩
  rw [FileSystem.read, locate_put hplace hlocate]
  dsimp only
  rw [hhere]

/-- The file of a path is left with a beginning of the bytes, and everything else as it was. -/
def CutShort (fs : FileSystem) (p : Path) (bytes : List UInt8) (after : FileSystem) : Prop :=
  ∃ n, n < bytes.length ∧ fs.Rewritten p (bytes.take n) after

/-- The path is that of a device. No file changes; what a screen is given is shown. -/
def Passed (fs : FileSystem) (p : Path) (bytes : List UInt8) (after : FileSystem) : Prop :=
  ∃ place given screen, fs.locate p = .ok place ∧ fs.at? place = some (.device given screen) ∧
    after = if screen then { fs with shown := fs.shown ++ bytes } else fs

inductive Writes (fs : FileSystem) (p : Path) (bytes : List UInt8) :
    Except FileError Unit × FileSystem → Prop where
  | refused {e : FileError} : fs.opened p = .error e → Writes fs p bytes (.error e, fs)
  | rewritten {after : FileSystem} : fs.Rewritten p bytes after → Writes fs p bytes (.ok (), after)
  | cutShort {after : FileSystem} : fs.CutShort p bytes after →
      Writes fs p bytes (.error .tooLarge, after)
  | passed {after : FileSystem} : fs.Passed p bytes after → Writes fs p bytes (.ok (), after)

theorem held_eq_or_take (fs : FileSystem) (bytes : List UInt8) :
    fs.held bytes = bytes ∨ ∃ n, n < bytes.length ∧ fs.held bytes = bytes.take n := by
  unfold held
  cases fs.limit with
  | none => exact .inl rfl
  | some n =>
    by_cases hn : n < bytes.length
    · exact .inr ⟨n, hn, rfl⟩
    · exact .inl (List.take_of_length_le (by omega))

theorem fill_put (hplace : fs.Ordinary place) (bytes : List UInt8) :
    (fs.put place (.file [])).fill place bytes =
      (if fs.held bytes = bytes then .ok () else .error .tooLarge,
        fs.put place (.file (fs.held bytes))) := by
  have hhere : (fs.put place (.file [])).at? place = some (.file []) := by
    rw [at?_put hplace.ne_nil, if_pos rfl]
  unfold fill
  rw [hhere, put_put]
  rfl

theorem writes_fill {p : Path} (hlocate : fs.locate p = .ok place) (hplace : fs.Ordinary place)
    (bytes : List UInt8) : Writes fs p bytes ((fs.put place (.file [])).fill place bytes) := by
  have hput := rewritten_put hlocate hplace (fs.held bytes)
  rw [fill_put hplace]
  rcases fs.held_eq_or_take bytes with hall | ⟨n, hn, hpart⟩
  · rw [if_pos hall, hall]
    exact .rewritten (hall ▸ hput)
  · have hne : fs.held bytes ≠ bytes := fun heq => by
      have hlen := congrArg List.length (hpart.symm.trans heq)
      simp only [List.length_take] at hlen
      omega
    rw [if_neg hne, hpart]
    exact .cutShort ⟨n, hn, hpart ▸ hput⟩

theorem writes (fs : FileSystem) (p : Path) (bytes : List UInt8) :
    Writes fs p bytes (fs.write p bytes) := by
  have hopened : ∀ e, fs.opened p = .error e → Writes fs p bytes (fs.write p bytes) :=
    fun e he => by
    rw [write, he]
    exact .refused he
  cases hlocate : fs.locate p with
  | error e => exact hopened e (by rw [opened, hlocate])
  | ok place =>
    cases hnode : fs.at? place with
    | none => simpa [write, opened, hlocate, hnode] using writes_fill hlocate (.inl hnode) bytes
    | some node =>
      cases node with
      | file old =>
        simpa [write, opened, hlocate, hnode] using writes_fill hlocate (.inr ⟨old, hnode⟩) bytes
      | directory => exact hopened .isDirectory (by simp [opened, hlocate, hnode])
      | device given screen =>
        simp only [write, opened, hlocate, hnode, fill]
        exact .passed ⟨place, given, screen, hlocate, hnode, rfl⟩

theorem exists_read_of_isFile {p : Path} (h : fs.isFile p = .ok true) :
    ∃ bytes, fs.read p = .ok bytes := by
  unfold isFile at h
  unfold read
  cases hlocate : fs.locate p with
  | error e =>
    rw [hlocate] at h
    cases e <;> simp at h
  | ok place =>
    rw [hlocate] at h
    dsimp only at h ⊢
    split at h
    · rename_i bytes hnode
      exact ⟨bytes, by rw [hnode]⟩
    · cases h

end OrsonHighlight.FileSystem
