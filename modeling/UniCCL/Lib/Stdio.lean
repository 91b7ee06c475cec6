import Mathlib.Logic.Function.Basic
import UniCCL.Lib.CString

/-! # Files and streams

What `fopen`, `fwrite`, `fread`, `fclose` and `rename` do to files that several
processes can name. A name refers to a file, and a stream stays on its file when
the name is given to another one. What is written is buffered on the stream and
reaches the file in order, how much of it at which call is up to the library.
-/

namespace Stdio

open CString

/-- Every name refers to a file that exists. -/
def NamesBelow (fresh : Nat) (dir : CStr → Option Nat) : Prop :=
  ∀ path f, dir path = some f → f < fresh

theorem NamesBelow.update {fresh fresh' f : Nat} {dir : CStr → Option Nat}
    (h : NamesBelow fresh dir) (hle : fresh ≤ fresh') (hf : f < fresh') (path : CStr) :
    NamesBelow fresh' (Function.update dir path (some f)) := by
  intro path' g hg
  by_cases hpath : path' = path
  · rw [hpath, Function.update_self] at hg
    exact Option.some.inj hg ▸ hf
  · rw [Function.update_of_ne hpath] at hg
    exact lt_of_lt_of_le (h path' g hg) hle

theorem NamesBelow.remove {fresh : Nat} {dir : CStr → Option Nat} (h : NamesBelow fresh dir)
    (path : CStr) : NamesBelow fresh (Function.update dir path none) := by
  intro path' g hg
  by_cases hpath : path' = path
  · rw [hpath, Function.update_self] at hg
    cases hg
  · rw [Function.update_of_ne hpath] at hg
    exact h path' g hg

/-- The files of a host, each a number. -/
structure Files where
  dir : CStr → Option Nat
  content : Nat → List UInt8
  /-- what a stream open for writing still buffers; `none` when no such stream is open -/
  buffered : Nat → Option (List UInt8)
  /-- the files that exist are those with a smaller number -/
  fresh : Nat
  named : NamesBelow fresh dir

/-- An open stream and the file it is on. -/
structure Stream where
  file : Nat
  writing : Bool
deriving DecidableEq

namespace Files

variable (fs : Files)

/-- The file `fopen(path, "w")` opens: the one the name refers to, or a new one. -/
def writeTarget (path : CStr) : Nat := (fs.dir path).getD fs.fresh

/-- The files after a permitted `fopen(path, "w")`: the file is truncated, or created. -/
def create (path : CStr) : Files where
  dir := Function.update fs.dir path (some (fs.writeTarget path))
  content := Function.update fs.content (fs.writeTarget path) []
  buffered := Function.update fs.buffered (fs.writeTarget path) (some [])
  fresh := max fs.fresh (fs.writeTarget path + 1)
  named := fs.named.update (Nat.le_max_left ..) (Nat.le_max_right ..) path

/-- `fopen(path, "w")`. -/
def fopenWrite (path : CStr) (granted : Bool) : Files × Option Stream :=
  if granted then (fs.create path, some ⟨fs.writeTarget path, true⟩) else (fs, none)

/-- `fwrite`: the bytes the stream accepts are buffered, and some of what is buffered
reaches the file. The value is the number of bytes accepted. -/
def fwrite (f : Stream) (bytes : List UInt8) (accepted flushed : Nat) : Files × Nat :=
  match f.writing, fs.buffered f.file with
  | true, some buffered =>
      let taken := bytes.take accepted
      let buffered := buffered ++ taken
      ({ fs with
          content := Function.update fs.content f.file (fs.content f.file ++ buffered.take flushed)
          buffered := Function.update fs.buffered f.file (some (buffered.drop flushed)) },
        taken.length)
  | _, _ => (fs, 0)

/-- `fclose`: of what is still buffered, that many bytes reach the file. -/
def fclose (f : Stream) (flushed : Nat) : Files :=
  match f.writing, fs.buffered f.file with
  | true, some buffered =>
      { fs with
        content := Function.update fs.content f.file (fs.content f.file ++ buffered.take flushed)
        buffered := Function.update fs.buffered f.file none }
  | _, _ => fs

/-- `rename`, whether it succeeds. Two names of one file are left alone. -/
def rename (old new : CStr) (granted : Bool) : Files × Bool :=
  match granted, h : fs.dir old with
  | true, some f =>
      if fs.dir new = some f then (fs, true)
      else
        ({ fs with
            dir := Function.update (Function.update fs.dir old none) new (some f)
            named := (fs.named.remove old).update (Nat.le_refl _) (fs.named old f h) new }, true)
  | _, _ => (fs, false)

/-- `fopen(path, "r")`. -/
def fopenRead (path : CStr) (granted : Bool) : Option Stream :=
  if granted then (fs.dir path).map fun f => ⟨f, false⟩ else none

/-- The first `fread` of at most `cap` bytes from a stream. -/
def fread (f : Stream) (cap transferred : Nat) : List UInt8 :=
  (fs.content f.file).take (min transferred cap)

/-! ## What has been written -/

/-- Every byte a stream has accepted for the file since it was truncated: what the file
holds, then what is still buffered. -/
def written (f : Nat) : List UInt8 := fs.content f ++ (fs.buffered f).getD []

variable {fs} {path old new : CStr} {f : Stream} {g : Nat}

theorem written_create (path : CStr) (g : Nat) :
    (fs.create path).written g = if g = fs.writeTarget path then [] else fs.written g := by
  by_cases hg : g = fs.writeTarget path
  · simp [written, create, hg]
  · simp [written, create, hg]

theorem dir_create (path path' : CStr) :
    (fs.create path).dir path' =
      if path' = path then some (fs.writeTarget path) else fs.dir path' :=
  Function.update_apply fs.dir path _ path'

/-- Writing appends what the stream accepts, however much of it is buffered. -/
theorem fwrite_spec (bytes : List UInt8) (accepted flushed : Nat) {buffered : List UInt8}
    (hw : f.writing = true) (hb : fs.buffered f.file = some buffered) :
    let r := fs.fwrite f bytes accepted flushed
    r.1.dir = fs.dir ∧ r.2 = (bytes.take accepted).length ∧
      (∃ left, r.1.buffered f.file = some left) ∧
      r.1.written f.file = fs.written f.file ++ bytes.take accepted ∧
      ∀ g, g ≠ f.file → r.1.written g = fs.written g := by
  simp only [fwrite, hw, hb]
  refine ⟨trivial, trivial, ⟨_, Function.update_self ..⟩, ?_, fun g hg => ?_⟩
  · simp [written, hb]
  · simp [written, Function.update_of_ne hg]

/-- Closing may lose the end of what was written, and loses nothing when everything
that was buffered is flushed. -/
theorem fclose_spec (flushed : Nat) {buffered : List UInt8} (hw : f.writing = true)
    (hb : fs.buffered f.file = some buffered) :
    let r := fs.fclose f flushed
    r.dir = fs.dir ∧ r.fresh = fs.fresh ∧ r.buffered f.file = none ∧
      r.written f.file <+: fs.written f.file ∧
      (buffered.length ≤ flushed → r.content f.file = fs.written f.file) ∧
      ∀ g, g ≠ f.file → r.written g = fs.written g := by
  simp only [fclose, hw, hb]
  refine ⟨trivial, trivial, Function.update_self .., ?_, fun hall => ?_, fun g hg => ?_⟩
  · simp [written, hb, List.prefix_append_right_inj, List.take_prefix]
  · simp [written, hb, List.take_of_length_le hall]
  · simp [written, Function.update_of_ne hg]

theorem written_rename (granted : Bool) (g : Nat) :
    (fs.rename old new granted).1.written g = fs.written g := by
  unfold rename
  split
  · split <;> rfl
  · rfl

/-- After a `rename` a name refers to the file it referred to, or it is the new name of
the renamed file. -/
theorem dir_rename {granted : Bool} (h : (fs.rename old new granted).1.dir path = some g) :
    fs.dir path = some g ∨ (path = new ∧ fs.dir old = some g) := by
  unfold rename at h
  split at h
  · rename_i f hold
    split at h
    · exact .inl h
    · have hmoved : Function.update (Function.update fs.dir old none) new (some f) path = some g := h
      rw [Function.update_apply, Function.update_apply] at hmoved
      split at hmoved
      · rename_i hnew
        exact .inr ⟨hnew, hold.trans hmoved⟩
      · split at hmoved
        · cases hmoved
        · exact .inl hmoved
  · exact .inl h

theorem fopenRead_spec {granted : Bool} (h : fs.fopenRead path granted = some f) :
    ∃ g, fs.dir path = some g ∧ f = ⟨g, false⟩ := by
  unfold fopenRead at h
  split at h
  · obtain ⟨g, hg, hf⟩ := Option.map_eq_some_iff.mp h
    exact ⟨g, hg, hf.symm⟩
  · cases h

theorem fopenRead_of_dir (h : fs.dir path = some g) :
    fs.fopenRead path true = some ⟨g, false⟩ := by
  simp only [fopenRead, if_true, h, Option.map_some]

/-- A first `fread` delivers the beginning of the file. -/
theorem fread_begins (f : Stream) (cap transferred : Nat) :
    fs.fread f cap transferred <+: fs.content f.file := List.take_prefix ..

theorem fread_whole {cap transferred : Nat} (hcap : (fs.content f.file).length ≤ cap)
    (ht : cap ≤ transferred) : fs.fread f cap transferred = fs.content f.file :=
  List.take_of_length_le (by omega)

/-! ## Files that are complete -/

/-- Nothing writes to the file, and the name `tmp` under which files are written does
not refer to it. -/
structure Sealed (fs : Files) (tmp : CStr) (g : Nat) : Prop where
  below : g < fs.fresh
  closed : fs.buffered g = none
  apart : fs.dir tmp ≠ some g

theorem Sealed.ne_writeTarget {tmp : CStr} (h : fs.Sealed tmp g) : g ≠ fs.writeTarget tmp := by
  intro hg
  unfold writeTarget at hg
  cases hd : fs.dir tmp with
  | none =>
      rw [hd] at hg
      have hlt := h.below
      rw [hg] at hlt
      exact Nat.lt_irrefl _ hlt
  | some f =>
      rw [hd] at hg
      exact h.apart (by rw [hd, hg]; rfl)

theorem Sealed.create {tmp : CStr} (h : fs.Sealed tmp g) : (fs.create tmp).Sealed tmp g where
  below := Nat.lt_of_lt_of_le h.below (Nat.le_max_left ..)
  closed := (Function.update_of_ne h.ne_writeTarget ..).trans h.closed
  apart := by
    rw [dir_create, if_pos rfl]
    exact fun hg => h.ne_writeTarget (Option.some.inj hg).symm

theorem Sealed.fwrite {tmp : CStr} (h : fs.Sealed tmp g) (f : Stream) (bytes : List UInt8)
    (accepted flushed : Nat) : (fs.fwrite f bytes accepted flushed).1.Sealed tmp g := by
  unfold Files.fwrite
  split
  · rename_i buffered _ hb
    have hne : g ≠ f.file := fun hg => by
      rw [← hg, h.closed] at hb
      cases hb
    exact ⟨h.below, (Function.update_of_ne hne ..).trans h.closed, h.apart⟩
  · exact h

theorem Sealed.fclose {tmp : CStr} (h : fs.Sealed tmp g) (f : Stream) (flushed : Nat) :
    (fs.fclose f flushed).Sealed tmp g := by
  unfold Files.fclose
  split
  · rename_i buffered _ hb
    refine ⟨h.below, ?_, h.apart⟩
    by_cases hg : g = f.file
    · rw [hg]
      exact Function.update_self ..
    · exact (Function.update_of_ne hg ..).trans h.closed
  · exact h

theorem Sealed.rename {tmp : CStr} (h : fs.Sealed tmp g) (new : CStr) (granted : Bool) :
    (fs.rename tmp new granted).1.Sealed tmp g := by
  have hdir : (fs.rename tmp new granted).1.dir tmp ≠ some g := fun hg => by
    rcases dir_rename hg with hg | ⟨-, hg⟩ <;> exact h.apart hg
  refine ⟨?_, ?_, hdir⟩ <;> unfold Files.rename <;> split
  · split <;> exact h.below
  · exact h.below
  · split <;> exact h.closed
  · exact h.closed

/-- A closed file is sealed by giving it another name. -/
theorem sealed_of_rename {tmp : CStr} (hne : tmp ≠ new) (hdir : fs.dir tmp = some g)
    (hnew : fs.dir new ≠ some g) (hclosed : fs.buffered g = none) :
    (fs.rename tmp new true).1.Sealed tmp g := by
  have hbelow := fs.named tmp g hdir
  unfold Files.rename
  split
  · rename_i f hf
    cases hdir.symm.trans hf
    rw [if_neg hnew]
    refine ⟨hbelow, hclosed, ?_⟩
    simp only [Function.update_of_ne hne, Function.update_self]
    exact nofun
  · rename_i h
    exact absurd rfl (h g · hdir)

end Files

end Stdio
