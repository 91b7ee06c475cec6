import UniCCL.Spec.Session

/-! # What is kept of a process's output

A process is compared with another up to the buffer of `dlerror` and up to what it
printed: the terse process keeps the indented lines of reports, the quiet one keeps
nothing of stderr.
-/

namespace UniCCL

open CString

/-! ## Lines on stderr -/

/-- A line of a report. -/
def Event.isIndented : Event → Bool
  | .stderr text => text.bytes.head? = some 32
  | _ => false

/-- Any other line on stderr. -/
def Event.isRemark : Event → Bool
  | .stderr text => text.bytes.head? ≠ some 32
  | _ => false

theorem Event.not_remark_of_visible {e : Event} (h : e.isVisible = true) : e.isRemark = false := by
  cases e <;> first | rfl | cases h

theorem Event.not_remark_of_indented {e : Event} (h : e.isIndented = true) :
    e.isRemark = false := by
  cases e with
  | stderr text => simpa [isRemark, isIndented] using h
  | _ => rfl

theorem Event.not_visible_of_indented {e : Event} (h : e.isIndented = true) :
    e.isVisible = false := by
  cases e <;> first | rfl | cases h

/-- A library was opened or closed. -/
def Event.isLoading : Event → Bool
  | .dlopen .. | .dlclose _ => true
  | _ => false

theorem Event.visible_of_loading {e : Event} (h : e.isLoading = true) : e.isVisible = true := by
  cases e <;> first | rfl | cases h

namespace Process

def extend (p : Process) (es : List Event) : Process := { p with log := p.log ++ es }

@[simp] theorem extend_nil (p : Process) : p.extend [] = p := by
  simp [extend]

theorem extend_extend (p : Process) (es fs : List Event) :
    (p.extend es).extend fs = p.extend (es ++ fs) := by
  simp [extend]

/-- The process without its remarks and without the `dlerror` buffer. -/
def terse (p : Process) : Process :=
  { p with dlerrorBuf := none, lastError := 0, log := p.log.filter fun e => !e.isRemark }

/-- The process without the lines it printed and without the `dlerror` buffer. -/
def quiet (p : Process) : Process :=
  { p with dlerrorBuf := none, lastError := 0, log := p.log.filter (·.isVisible) }

@[simp] theorem eprint_quiet (p : Process) (text : CStr) : (p.eprint text).quiet = p.quiet := by
  simp [eprint, record, quiet, Event.isVisible]

theorem record_terse (p : Process) {e : Event} (he : e.isRemark = false) :
    (p.record e).terse = p.terse.extend [e] := by
  simp [record, terse, extend, he]

theorem eprint_terse (p : Process) {text : CStr} (h : Event.isRemark (.stderr text) = true) :
    (p.eprint text).terse = p.terse := by
  simp [eprint, record, terse, h]

theorem extend_terse (p : Process) {es : List Event} (hes : ∀ e ∈ es, e.isRemark = false) :
    (p.extend es).terse = p.terse.extend es := by
  have hkept : es.filter (fun e => !e.isRemark) = es := by
    rw [List.filter_eq_self]
    intro e he
    rw [hes e he]
    rfl
  simp [extend, terse, hkept]

section Filter

variable {p q : Process} {es : List Event} {keep : Event → Bool}

/-- Whoever does not look at remarks sees the same in the terse process. -/
theorem filter_terse (hkeep : ∀ e, keep e = true → e.isRemark = false) (p : Process) :
    p.terse.log.filter keep = p.log.filter keep := by
  simp only [terse, List.filter_filter]
  apply List.filter_congr
  intro e _
  cases hk : keep e with
  | false => rfl
  | true => simp [hkeep e hk]

theorem filter_of_terse (hkeep : ∀ e, keep e = true → e.isRemark = false)
    (h : q.terse = p.terse.extend es) :
    q.log.filter keep = p.log.filter keep ++ es.filter keep := by
  have hlog : q.terse.log = p.terse.log ++ es := congrArg log h
  rw [← filter_terse hkeep q, hlog, List.filter_append, filter_terse hkeep]

theorem terse_quiet (p : Process) : p.terse.quiet = p.quiet := by
  have hlog := filter_terse (fun _ => Event.not_remark_of_visible) p
  simp only [quiet, hlog]
  rfl

theorem quiet_of_terse (h : q.terse = p.terse.extend es) :
    q.quiet = p.quiet.extend (es.filter (·.isVisible)) := by
  have hextend : (p.terse.extend es).quiet = p.terse.quiet.extend (es.filter (·.isVisible)) := by
    simp [quiet, extend]
  rw [← terse_quiet q, h, hextend, terse_quiet]

theorem quiet_of_terse_eq (h : q.terse = p.terse) : q.quiet = p.quiet :=
  (quiet_of_terse (h.trans (extend_nil _).symm)).trans (extend_nil _)

end Filter

theorem dlopen_terse (w : World) (name : CStr) (p : Process) :
    (p.dlopen w name).2.terse = p.terse.extend [.dlopen name (w.dlopen name)] := by
  unfold dlopen
  cases h : w.dlopen name with
  | none => exact record_terse p rfl
  | some handle => exact record_terse p rfl

theorem loadLibrary_terse (w : World) (name : CStr) (p : Process) :
    (p.loadLibrary w name).2.terse = p.terse.extend [.dlopen name (w.dlopen name)] := by
  unfold loadLibrary
  cases h : w.dlopen name with
  | none => exact record_terse p rfl
  | some handle => exact record_terse p rfl

theorem dlsym_terse (w : World) (handle : Option Handle) (symbol : CStr) (p : Process) :
    (p.dlsym w handle symbol).1 = w.dlsym handle symbol ∧
      (p.dlsym w handle symbol).2.terse = p.terse := by
  unfold dlsym
  cases w.dlsym handle symbol <;> exact ⟨rfl, rfl⟩

theorem uniccPlatformDlopen_fst (os : Os) (w : World) (name : CStr) (p : Process) :
    (p.uniccPlatformDlopen os w name).1 = w.dlopen name := by
  cases h : w.dlopen name <;> cases os <;> simp [uniccPlatformDlopen, loadLibrary, dlopen, h]

theorem uniccPlatformDlopen_terse (os : Os) (w : World) (name : CStr) (p : Process) :
    (p.uniccPlatformDlopen os w name).2.terse =
      p.terse.extend [.dlopen name (w.dlopen name)] := by
  cases os with
  | windows => exact loadLibrary_terse w name p
  | linux | apple | other => exact dlopen_terse w name p

theorem uniccPlatformDlerror_terse (os : Os) (p : Process) :
    (p.uniccPlatformDlerror os).2.terse = p.terse := by
  cases os <;> rfl

/-- Where `dlerror` points after a load has failed for a name: on Windows nothing has been
written there yet. -/
theorem dlerrorBuf_of_none (os : Os) {w : World} {name : CStr} (h : w.dlopen name = none)
    (p : Process) :
    (p.uniccPlatformDlopen os w name).2.dlerrorBuf =
      if os = .windows then p.dlerrorBuf else some (w.dlerrorText name) := by
  cases os <;> simp [uniccPlatformDlopen, loadLibrary, dlopen, h, record]

theorem uniccPlatformDlerror_of_none (os : Os) {w : World} {name : CStr}
    (h : w.dlopen name = none) (p : Process) :
    let r := (p.uniccPlatformDlopen os w name).2.uniccPlatformDlerror os
    r.1 = some .buffer ∧ r.2.dlerrorBuf = some (failureText os w name) := by
  cases os with
  | windows =>
      have hfits : (CStr.lit "GetLastError() = " ++ decimal (w.loadErrorCode name).toNat).strlen <
          256 := by
        have hprefix : (CStr.lit "GetLastError() = ").strlen = 17 := by decide
        have hcode := strlen_decimal_le (k := 10) (by omega)
          (Nat.lt_trans (w.loadErrorCode name).toNat_lt (by decide))
        rw [CStr.strlen_append, hprefix]
        omega
      refine ⟨rfl, ?_⟩
      simp only [uniccPlatformDlerror, uniccPlatformDlopen, loadLibrary, h, record, failureText,
        if_true]
      rw [CharArray.formatted_of_lt hfits]
  | linux | apple | other =>
      simp [uniccPlatformDlerror, uniccPlatformDlopen, dlopen, h, record, failureText, dlerror]

theorem dlclose_terse (h : Handle) (p : Process) :
    (p.dlclose (some h)).terse = p.terse.extend [.dlclose h] :=
  record_terse p rfl

end Process

end UniCCL
