import UniCCL.Lib.Stdio

/-! # Publishing a file by renaming it

A writer puts bytes into a file under a temporary name, closes it and then gives it
the name that readers open. What a reader can find is a beginning of the bytes. When
closing loses nothing and the two names differ (`whole`), it is nothing or all of them.
-/

namespace Stdio.Files

open CString

/-- The file holds a beginning of the bytes; with `whole` it is closed for good, and
holds nothing or all of them. -/
structure Carries (whole : Prop) (tmp : CStr) (bytes : List UInt8) (fs : Files) (g : Nat) :
    Prop where
  begun : fs.written g <+: bytes
  complete : whole → fs.Sealed tmp g ∧ (fs.content g = [] ∨ fs.content g = bytes)

/-- Whatever file the public name refers to carries the bytes. -/
def Published (whole : Prop) (tmp new : CStr) (bytes : List UInt8) (fs : Files) : Prop :=
  ∀ g, fs.dir new = some g → fs.Carries whole tmp bytes g

section Readers

variable {whole : Prop} {tmp : CStr} {bytes : List UInt8} {fs : Files} {g : Nat}

/-- Before anything is published a file is empty, so it carries whatever comes. -/
theorem Carries.of_nil (h : fs.Carries whole tmp [] g) (bytes : List UInt8) :
    fs.Carries whole tmp bytes g where
  begun := by
    rw [List.prefix_nil.mp h.begun]
    exact List.nil_prefix
  complete hwhole := ⟨(h.complete hwhole).1, .inl (or_self_iff.mp (h.complete hwhole).2)⟩

/-- What a first `fread` delivers. -/
theorem Carries.fread {f : Stream} (h : fs.Carries whole tmp bytes f.file) {cap transferred : Nat}
    (hcap : bytes.length ≤ cap) (ht : whole → cap ≤ transferred) :
    fs.fread f cap transferred <+: bytes ∧
      (whole → fs.fread f cap transferred = [] ∨ fs.fread f cap transferred = bytes) := by
  have hcontent : fs.content f.file <+: fs.written f.file := List.prefix_append ..
  refine ⟨((fread_begins f cap transferred).trans hcontent).trans h.begun, fun hwhole => ?_⟩
  obtain ⟨-, hempty | hall⟩ := h.complete hwhole
  · refine .inl (List.prefix_nil.mp ?_)
    rw [← hempty]
    exact fread_begins f cap transferred
  · refine .inr ?_
    have hlen : (fs.content f.file).length ≤ cap := by rw [hall]; exact hcap
    rw [fread_whole hlen (ht hwhole), hall]

end Readers

/-! ## The steps of the writer -/

section Writer

variable {whole : Prop} {tmp new : CStr} {bytes : List UInt8} {fs : Files} {f : Stream} {g : Nat}

theorem Carries.create (h : fs.Carries whole tmp bytes g) :
    (fs.create tmp).Carries whole tmp bytes g where
  begun := by
    rw [written_create]
    split
    · exact List.nil_prefix
    · exact h.begun
  complete hwhole := by
    obtain ⟨hsealed, hcontent⟩ := h.complete hwhole
    have hsame : (fs.create tmp).content g = fs.content g :=
      Function.update_of_ne hsealed.ne_writeTarget ..
    rw [hsame]
    exact ⟨hsealed.create, hcontent⟩

/-- The stream the writer has opened, and what it has accepted so far. -/
structure Writing (tmp : CStr) (fs : Files) (f : Stream) (sent : List UInt8) : Prop where
  writing : f.writing = true
  named : fs.dir tmp = some f.file
  buffered : ∃ left, fs.buffered f.file = some left
  written : fs.written f.file = sent

theorem writing_create (fs : Files) (tmp : CStr) :
    (fs.create tmp).Writing tmp ⟨fs.writeTarget tmp, true⟩ [] where
  writing := rfl
  named := by rw [dir_create, if_pos rfl]
  buffered := ⟨[], Function.update_self ..⟩
  written := by rw [written_create, if_pos rfl]

theorem published_create (h : fs.Published whole tmp new bytes) (hne : whole → tmp ≠ new) :
    (fs.create tmp).Published whole tmp new bytes := by
  intro g hg
  rw [dir_create] at hg
  split at hg
  · -- only when the temporary name is the public one does this empty the public file
    rename_i hname
    refine ⟨?_, fun hwhole => absurd hname.symm (hne hwhole)⟩
    rw [← Option.some.inj hg, written_create, if_pos rfl]
    exact List.nil_prefix
  · exact (h g hg).create

/-- A sealed file is not the one that is written to. -/
theorem content_fwrite (hsealed : fs.Sealed tmp g) (sent : List UInt8) (accepted flushed : Nat) :
    (fs.fwrite f sent accepted flushed).1.content g = fs.content g := by
  unfold Files.fwrite
  split
  · rename_i buffered _ hb
    refine Function.update_of_ne (fun hg => ?_) ..
    rw [← hg, hsealed.closed] at hb
    cases hb
  · rfl

theorem content_fclose (hsealed : fs.Sealed tmp g) (flushed : Nat) :
    (fs.fclose f flushed).content g = fs.content g := by
  unfold Files.fclose
  split
  · rename_i buffered _ hb
    refine Function.update_of_ne (fun hg => ?_) ..
    rw [← hg, hsealed.closed] at hb
    cases hb
  · rfl

theorem Carries.fwrite (h : fs.Carries whole tmp bytes g) (hf : fs.Writing tmp f [])
    (accepted flushed : Nat) : (fs.fwrite f bytes accepted flushed).1.Carries whole tmp bytes g := by
  obtain ⟨left, hleft⟩ := hf.buffered
  obtain ⟨-, -, -, hsent, hother⟩ := fwrite_spec bytes accepted flushed
    hf.writing hleft
  refine ⟨?_, fun hwhole => ?_⟩
  · by_cases hg : g = f.file
    · rw [hg, hsent, hf.written]
      exact List.take_prefix accepted bytes
    · rw [hother g hg]
      exact h.begun
  · obtain ⟨hsealed, hcontent⟩ := h.complete hwhole
    rw [content_fwrite hsealed]
    exact ⟨hsealed.fwrite f bytes accepted flushed, hcontent⟩

theorem Writing.fwrite (hf : fs.Writing tmp f []) (accepted flushed : Nat) :
    (fs.fwrite f bytes accepted flushed).1.Writing tmp f (bytes.take accepted) := by
  obtain ⟨left, hleft⟩ := hf.buffered
  obtain ⟨hdir, -, hbuffered, hsent, -⟩ := fwrite_spec bytes accepted flushed
    hf.writing hleft
  refine ⟨hf.writing, ?_, hbuffered, ?_⟩
  · rw [hdir]
    exact hf.named
  · rw [hsent, hf.written]
    rfl

theorem published_fwrite (h : fs.Published whole tmp new bytes) (hf : fs.Writing tmp f [])
    (accepted flushed : Nat) :
    (fs.fwrite f bytes accepted flushed).1.Published whole tmp new bytes := by
  obtain ⟨left, hleft⟩ := hf.buffered
  obtain ⟨hdir, -⟩ := fwrite_spec bytes accepted flushed hf.writing hleft
  intro g hg
  rw [hdir] at hg
  exact (h g hg).fwrite hf accepted flushed

theorem Carries.fclose (h : fs.Carries whole tmp bytes g) {sent : List UInt8}
    (hf : fs.Writing tmp f sent) (flushed : Nat) :
    (fs.fclose f flushed).Carries whole tmp bytes g := by
  obtain ⟨left, hleft⟩ := hf.buffered
  obtain ⟨-, -, -, hown, -, hother⟩ := fclose_spec flushed hf.writing hleft
  refine ⟨?_, fun hwhole => ?_⟩
  · by_cases hg : g = f.file
    · rw [hg] at h ⊢
      exact hown.trans h.begun
    · rw [hother g hg]
      exact h.begun
  · obtain ⟨hsealed, hcontent⟩ := h.complete hwhole
    rw [content_fclose hsealed]
    exact ⟨hsealed.fclose f flushed, hcontent⟩

/-- The file is written and closed under its temporary name. -/
structure Staged (whole : Prop) (tmp : CStr) (bytes : List UInt8) (fs : Files) (g : Nat) :
    Prop where
  named : fs.dir tmp = some g
  closed : fs.buffered g = none
  begun : fs.written g <+: bytes
  complete : whole → fs.content g = bytes

theorem Writing.fclose (hf : fs.Writing tmp f bytes) {flushed : Nat}
    (hflushed : whole → bytes.length ≤ flushed) :
    (fs.fclose f flushed).Staged whole tmp bytes f.file := by
  obtain ⟨left, hleft⟩ := hf.buffered
  obtain ⟨hdir, -, hclosed, hown, hall, -⟩ := fclose_spec flushed hf.writing hleft
  rw [hf.written] at hown hall
  refine ⟨?_, hclosed, hown, fun hwhole => hall ?_⟩
  · rw [hdir]
    exact hf.named
  · -- what is buffered is a part of what was sent
    have hlen : left.length ≤ bytes.length := by
      rw [← hf.written, Files.written, hleft, List.length_append]
      exact Nat.le_add_left ..
    exact hlen.trans (hflushed hwhole)

theorem published_fclose (h : fs.Published whole tmp new bytes) {sent : List UInt8}
    (hf : fs.Writing tmp f sent) (flushed : Nat) :
    (fs.fclose f flushed).Published whole tmp new bytes := by
  obtain ⟨left, hleft⟩ := hf.buffered
  obtain ⟨hdir, -⟩ := fclose_spec flushed hf.writing hleft
  intro g hg
  rw [hdir] at hg
  exact (h g hg).fclose hf flushed

theorem content_rename (granted : Bool) (g : Nat) :
    (fs.rename tmp new granted).1.content g = fs.content g := by
  unfold Files.rename
  split
  · split <;> rfl
  · rfl

theorem Carries.rename (h : fs.Carries whole tmp bytes g) (new : CStr) (granted : Bool) :
    (fs.rename tmp new granted).1.Carries whole tmp bytes g where
  begun := by
    rw [written_rename]
    exact h.begun
  complete hwhole := by
    obtain ⟨hsealed, hcontent⟩ := h.complete hwhole
    rw [content_rename]
    exact ⟨hsealed.rename new granted, hcontent⟩

/-- The public name comes to refer to the file that was staged, and this seals it. -/
theorem published_rename (h : fs.Published whole tmp new bytes) (hg : fs.Staged whole tmp bytes g)
    (hne : whole → tmp ≠ new) (granted : Bool) :
    (fs.rename tmp new granted).1.Published whole tmp new bytes := by
  intro g' hg'
  cases granted with
  | false => exact (h g' hg').rename new false
  | true =>
      rcases dir_rename hg' with hold | ⟨-, hnew⟩
      · exact (h g' hold).rename new true
      · cases hg.named.symm.trans hnew
        refine ⟨?_, fun hwhole => ⟨sealed_of_rename (hne hwhole) hg.named ?_ hg.closed, .inr ?_⟩⟩
        · rw [written_rename]
          exact hg.begun
        · exact fun hdir => ((h g hdir).complete hwhole).1.apart hg.named
        · rw [content_rename]
          exact hg.complete hwhole

end Writer

/-! ## Publishing without loss

A writer that loses nothing, and readers that know the number of bytes to expect.
-/

/-- The file is empty or has `n` bytes. -/
def Fits (n : Nat) (fs : Files) (g : Nat) : Prop :=
  fs.content g = [] ∨ (fs.content g).length = n

/-- The name refers to a file that fits. -/
def Offered (n : Nat) (path : CStr) (fs : Files) : Prop := ∃ g, fs.dir path = some g ∧ fs.Fits n g

/-- The name refers to a file of `n` bytes. -/
def Ready (n : Nat) (path : CStr) (fs : Files) : Prop :=
  ∃ g, fs.dir path = some g ∧ (fs.content g).length = n

/-- The name refers to an empty file. -/
def Blank (path : CStr) (fs : Files) : Prop := ∃ g, fs.dir path = some g ∧ fs.content g = []

/-- A file that fits goes on fitting, what is offered stays offered, and once the name is
ready nothing changes any more. -/
structure Advances (n : Nat) (path : CStr) (fs fs' : Files) : Prop where
  fits : ∀ g, fs.Fits n g → fs'.Fits n g
  offered : fs.Offered n path → fs'.Offered n path
  ready : fs.Ready n path → fs'.dir = fs.dir ∧ fs'.content = fs.content

section Length

variable {n : Nat} {tmp path : CStr} {bytes : List UInt8} {fs fs' fs'' : Files} {f : Stream} {g : Nat}

theorem Advances.refl (n : Nat) (path : CStr) (fs : Files) : fs.Advances n path fs :=
  ⟨fun _ h => h, fun h => h, fun _ => ⟨rfl, rfl⟩⟩

theorem Ready.of_same (h : fs.Ready n path) (hdir : fs'.dir = fs.dir)
    (hcontent : fs'.content = fs.content) : fs'.Ready n path := by
  obtain ⟨g, hg, hlen⟩ := h
  exact ⟨g, hdir ▸ hg, by rw [hcontent]; exact hlen⟩

theorem Ready.advance (h : fs.Ready n path) (hadv : fs.Advances n path fs') : fs'.Ready n path :=
  h.of_same (hadv.ready h).1 (hadv.ready h).2

theorem Advances.trans (h : fs.Advances n path fs') (h' : fs'.Advances n path fs'') :
    fs.Advances n path fs'' := by
  refine ⟨fun g hg => h'.fits g (h.fits g hg), fun hp => h'.offered (h.offered hp), fun hp => ?_⟩
  obtain ⟨hdir, hcontent⟩ := h.ready hp
  obtain ⟨hdir', hcontent'⟩ := h'.ready (hp.advance h)
  exact ⟨hdir'.trans hdir, hcontent'.trans hcontent⟩

theorem Ready.offered (h : fs.Ready n path) : fs.Offered n path := by
  obtain ⟨g, hg, hlen⟩ := h
  exact ⟨g, hg, .inr hlen⟩

theorem Blank.offered (h : fs.Blank path) (n : Nat) : fs.Offered n path := by
  obtain ⟨g, hg, hempty⟩ := h
  exact ⟨g, hg, .inl hempty⟩

theorem Blank.not_ready (h : fs.Blank path) (hn : n ≠ 0) : ¬ fs.Ready n path := by
  rintro ⟨g, hg, hlen⟩
  obtain ⟨g', hg', hempty⟩ := h
  cases hg.symm.trans hg'
  rw [hempty] at hlen
  exact hn hlen.symm

/-- What a first `fread` of a file that fits delivers. -/
theorem Fits.fread {f : Stream} (h : fs.Fits n f.file) {cap transferred : Nat} (hcap : n ≤ cap)
    (ht : cap ≤ transferred) :
    fs.fread f cap transferred = [] ∨ (fs.fread f cap transferred).length = n := by
  rcases h with hempty | hlen
  · left
    rw [Files.fread, hempty]
    exact List.take_nil
  · right
    rw [fread_whole (by omega) ht, hlen]

theorem Blank.create (h : fs.Blank path) (tmp : CStr) : (fs.create tmp).Blank path := by
  obtain ⟨g, hg, hempty⟩ := h
  unfold Blank
  rw [dir_create]
  split
  · exact ⟨_, rfl, Function.update_self ..⟩
  · refine ⟨g, hg, ?_⟩
    simp only [Files.create, Function.update_apply]
    split
    · rfl
    · exact hempty

theorem Blank.advances_create (h : fs.Blank path) (hn : n ≠ 0) (tmp : CStr) :
    fs.Advances n path (fs.create tmp) where
  fits g hg := by
    unfold Fits
    simp only [Files.create, Function.update_apply]
    split
    · exact .inl rfl
    · exact hg
  offered _ := (h.create tmp).offered n
  ready hready := absurd hready (h.not_ready hn)

/-- The stream has passed on to the file all it has accepted. -/
structure Flushed (tmp : CStr) (fs : Files) (f : Stream) (bytes : List UInt8) : Prop where
  writing : f.writing = true
  named : fs.dir tmp = some f.file
  buffered : fs.buffered f.file = some []
  content : fs.content f.file = bytes

theorem flushed_create (fs : Files) (tmp : CStr) :
    (fs.create tmp).Flushed tmp ⟨fs.writeTarget tmp, true⟩ [] where
  writing := rfl
  named := by rw [dir_create, if_pos rfl]
  buffered := Function.update_self ..
  content := Function.update_self ..

/-- A write to a fresh file of which nothing is kept back. -/
theorem Flushed.fwrite (h : fs.Flushed tmp f []) {accepted flushed : Nat}
    (ha : bytes.length ≤ accepted) (hf : bytes.length ≤ flushed) :
    let r := fs.fwrite f bytes accepted flushed
    r.2 = bytes.length ∧ r.1.Flushed tmp f bytes ∧ ∀ g, r.1.content g =
      if g = f.file then bytes else fs.content g := by
  have hsent : bytes.take accepted = bytes := List.take_of_length_le ha
  have hkept : bytes.take flushed = bytes := List.take_of_length_le hf
  have hleft : bytes.drop flushed = [] := List.drop_eq_nil_of_le hf
  simp only [Files.fwrite, h.writing, h.buffered, h.content, hsent, hkept, hleft, List.nil_append]
  exact ⟨trivial, ⟨h.writing, h.named, Function.update_self .., Function.update_self ..⟩,
    fun g => Function.update_apply ..⟩

theorem Blank.advances_fwrite (h : fs.Blank path) (hn : bytes.length ≠ 0) (hf : fs.Flushed tmp f [])
    {accepted flushed : Nat} (ha : bytes.length ≤ accepted) (hflushed : bytes.length ≤ flushed) :
    fs.Advances bytes.length path (fs.fwrite f bytes accepted flushed).1 := by
  obtain ⟨-, -, hcontent⟩ := hf.fwrite ha hflushed
  have hdir : (fs.fwrite f bytes accepted flushed).1.dir = fs.dir := by
    simp only [Files.fwrite, hf.writing, hf.buffered]
  refine ⟨fun g hg => ?_, fun _ => ?_, fun hready => absurd hready (h.not_ready hn)⟩
  · unfold Fits
    rw [hcontent]
    split
    · exact .inr rfl
    · exact hg
  · obtain ⟨g, hg, hempty⟩ := h
    refine ⟨g, hdir ▸ hg, ?_⟩
    unfold Fits
    rw [hcontent]
    split
    · exact .inr rfl
    · exact .inl hempty

/-- What such a write makes ready is the file it writes to. -/
theorem Blank.ready_fwrite (h : fs.Blank path) (hn : bytes.length ≠ 0) (hf : fs.Flushed tmp f [])
    {accepted flushed : Nat} (ha : bytes.length ≤ accepted) (hflushed : bytes.length ≤ flushed)
    (hready : (fs.fwrite f bytes accepted flushed).1.Ready bytes.length path) :
    (fs.fwrite f bytes accepted flushed).1.dir path = some f.file := by
  obtain ⟨g, hg, hlen⟩ := hready
  obtain ⟨g', hg', hempty⟩ := h
  have hdir : (fs.fwrite f bytes accepted flushed).1.dir = fs.dir := by
    simp only [Files.fwrite, hf.writing, hf.buffered]
  obtain ⟨-, -, hcontent⟩ := hf.fwrite ha hflushed
  rw [hdir] at hg ⊢
  cases hg.symm.trans hg'
  rw [hcontent] at hlen
  split at hlen
  · rename_i hsame
    rw [hg, hsame]
  · rw [hempty] at hlen
    exact absurd hlen.symm hn

/-- Closing a stream that keeps nothing back changes no file and no name. -/
theorem Flushed.fclose (h : fs.Flushed tmp f bytes) (flushed : Nat) :
    let fs' := fs.fclose f flushed
    fs'.dir = fs.dir ∧ fs'.content = fs.content := by
  simp only [Files.fclose, h.writing, h.buffered, List.take_nil, List.append_nil,
    Function.update_eq_self, and_self]

theorem advances_of_same (hdir : fs'.dir = fs.dir) (hcontent : fs'.content = fs.content) :
    fs.Advances n path fs' := by
  refine ⟨fun g hg => ?_, ?_, fun _ => ⟨hdir, hcontent⟩⟩
  · unfold Fits
    rw [hcontent]
    exact hg
  · rintro ⟨g, hg, hfits⟩
    refine ⟨g, hdir ▸ hg, ?_⟩
    unfold Fits
    rw [hcontent]
    exact hfits

/-- The name is given to a file of `n` bytes. -/
theorem ready_rename (hdir : fs.dir tmp = some g) (hlen : (fs.content g).length = n) :
    (fs.rename tmp path true).2 = true ∧ (fs.rename tmp path true).1.Ready n path := by
  unfold Files.rename
  split
  · rename_i f hold
    cases hdir.symm.trans hold
    split
    · rename_i hsame
      exact ⟨rfl, g, hsame, hlen⟩
    · exact ⟨rfl, g, Function.update_self .., hlen⟩
  · rename_i hnone
    exact absurd rfl (hnone g · hdir)

/-- When the name is ready before, it is a name of the same file. -/
theorem advances_rename (hdir : fs.dir tmp = some g) (hlen : (fs.content g).length = n)
    (hsame : fs.Ready n path → fs.dir path = some g) :
    fs.Advances n path (fs.rename tmp path true).1 where
  fits g' hg' := by
    unfold Fits
    rw [content_rename]
    exact hg'
  offered _ := (ready_rename hdir hlen).2.offered
  ready hready := by
    refine ⟨?_, funext fun g' => content_rename true g'⟩
    unfold Files.rename
    split
    · rename_i f hold
      cases hdir.symm.trans hold
      rw [if_pos (hsame hready)]
    · rfl

end Length

end Stdio.Files
