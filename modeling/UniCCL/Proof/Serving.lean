import UniCCL.Proof.History

/-! # A world that serves one family

Every name opens a library that exports all symbols of one family, and every
native function answers alike. Each shipped family can be initialized in it.
-/

namespace UniCCL

open CString

def Op.all : List Op :=
  [.getVersion, .commInitRank, .allreduce, .broadcast, .getUniqueId, .commDestroy, .commCount,
    .commUserRank, .groupStart, .groupEnd]

/-- The reply of a native function that stores nothing. -/
def NativeReply.returning (rc : Int32) : NativeReply := ⟨rc, none, none, fun _ => 0⟩

/-- The address of a symbol is the position of its operation. -/
def World.serving (d : BackendInfo) (reply : NativeReply) : World where
  getenv _ := none
  dlopen _ := some ⟨0⟩
  dlerrorText _ := .empty
  loadErrorCode _ := 0
  dlsym _ symbol := (Op.all.findIdx? fun op => d.symbol op = symbol).map FnPtr.mk
  dlsymText _ _ := .empty
  invoke _ _ := reply
  expired s := s

section Serving

variable {d : BackendInfo} {reply : NativeReply}

theorem serving_isSome_iff (h : Option Handle) (symbol : CStr) :
    ((World.serving d reply).dlsym h symbol).isSome ↔ ∃ op ∈ Op.all, d.symbol op = symbol := by
  simp [World.serving, List.findIdx?_isSome]

theorem serving_exports (h : Option Handle) (op : Op) :
    ((World.serving d reply).dlsym h (d.symbol op)).isSome := by
  rw [serving_isSome_iff]
  exact ⟨op, by cases op <;> decide, rfl⟩

theorem serving_identifies (hd : d ∈ uniccBackends) (reply : NativeReply) (h : Handle) :
    Identifies (World.serving d reply) h d := by
  have hprobe : ∀ d ∈ uniccBackends, d.probeSymbol = d.symbol .getVersion := by decide
  have hother : ∀ d ∈ uniccBackends, ∀ d' ∈ uniccBackends, ∀ op ∈ Op.all,
      d.symbol op = d'.probeSymbol → d' = d := by decide
  refine ⟨hd, ?_, ?_⟩
  · rw [hprobe d hd]
    exact serving_exports _ _
  · intro d' hd' hexported
    obtain ⟨op, hop, hsymbol⟩ := (serving_isSome_iff _ _).mp hexported
    rw [hother d hd d' hd' op hop hsymbol]
    exact Int32.le_refl _

theorem serving_complete (h : Handle) : Complete (World.serving d reply) h d :=
  fun op _ => serving_exports (some h) op

end Serving

end UniCCL
