import UniCCL.Guarantee.Operations

/-! # Result codes and the raw result over whole runs

When the unified code of an operation tells what the native function returned, and
which raw result `unicc_get_last_error` reports at any moment of a run.
-/

namespace UniCCL

open CString

/-! ## Unified codes -/

/-- The code tells what the native function did: `ok` only after a zero, the one
error code for native failures exactly after a nonzero result, and any other code
only when no native function ran. -/
structure NoRawCode (o : Output) : Prop where
  ok : o.ret = rcOf .ok → ∃ f args, .native f args 0 ∈ o.events
  unhandled : o.ret = rcOf .errUnhandledBackend ↔
    ∃ f args rc, .native f args rc ∈ o.events ∧ rc ≠ 0
  other : ∀ code, code ≠ .ok → code ≠ .errUnhandledBackend → o.ret = rcOf code →
    ∀ f args rc, .native f args rc ∉ o.events

/-- The native function this call reaches, if any, returns a nonnegative result or by
chance the code for native failures. -/
def NativeResultFits (w : World) (p : Process) (c : Call) : Prop :=
  ∀ op d f, c.op = some op → p.gState = .init → familyOf p.gBackendType = some d →
    slotTarget p.statics p.unicc op = some f → c.argsValid → c.idFits d →
    0 ≤ (w.invoke f (c.directArgs d)).rc ∨
      (w.invoke f (c.directArgs d)).rc = UniccResult.errUnhandledBackend.code

theorem noRawCode_refuse (c : Call) {code : UniccResult} (hok : code ≠ .ok)
    (hun : code ≠ .errUnhandledBackend) : NoRawCode (refuse c code) where
  ok h := absurd (rcOf_inj.mp h) hok
  unhandled := ⟨fun h => absurd (rcOf_inj.mp h) hun, fun ⟨_, _, _, hmem, _⟩ => by cases hmem⟩
  other _ _ _ _ _ _ _ hmem := by cases hmem

theorem noRawCode_ok (f : FnPtr) (args : List CArg) (out : OutParam) :
    NoRawCode ⟨rcOf .ok, out, [.native f args 0]⟩ where
  ok _ := ⟨f, args, List.mem_cons_self⟩
  unhandled := by
    refine ⟨fun h => absurd (rcOf_inj.mp h) (by decide), ?_⟩
    rintro ⟨g, args', rc, hmem, hne⟩
    cases List.mem_singleton.mp hmem
    exact absurd rfl hne
  other _ hok _ h := absurd (rcOf_inj.mp h).symm hok

theorem noRawCode_unhandled (f : FnPtr) (args : List CArg) {rc : Int32} (hrc : rc ≠ 0)
    (out : OutParam) : NoRawCode ⟨rcOf .errUnhandledBackend, out, [.native f args rc]⟩ where
  ok h := absurd (rcOf_inj.mp h) (by decide)
  unhandled := ⟨fun _ => ⟨f, args, rc, List.mem_cons_self, hrc⟩, fun _ => rfl⟩
  other _ _ hun h := absurd (rcOf_inj.mp h).symm hun

theorem unifiedCode_of_pos {rc : Int32} (h : 0 < rc) :
    unifiedCode rc = UniccResult.errUnhandledBackend.code := by
  unfold unifiedCode
  rw [if_neg, if_neg]
  · exact fun hneg => CInt.not_pos_of_neg hneg h
  · rintro rfl
    exact absurd h (by decide)

theorem unifiedCode_of_neg {rc : Int32} (h : rc < 0) : unifiedCode rc = rc := by
  unfold unifiedCode
  rw [if_neg, if_pos h]
  rintro rfl
  exact absurd h (by decide)

theorem noRawCode_native_iff (f : FnPtr) (args : List CArg) (rc : Int32) (out : OutParam) :
    NoRawCode ⟨.int (unifiedCode rc), out, [.native f args rc]⟩ ↔
      0 ≤ rc ∨ rc = UniccResult.errUnhandledBackend.code := by
  constructor
  · intro h
    by_cases hneg : rc < 0
    · right
      have hne : rc ≠ 0 := by
        rintro rfl
        exact absurd hneg (by decide)
      have hret := Ret.int.inj (h.unhandled.mpr ⟨f, args, rc, List.mem_cons_self, hne⟩)
      rw [unifiedCode_of_neg hneg] at hret
      exact hret
    · exact .inl (Int32.not_lt.mp hneg)
  · intro h
    by_cases h0 : rc = 0
    · subst h0
      exact noRawCode_ok f args out
    · have hcode : unifiedCode rc = UniccResult.errUnhandledBackend.code := by
        rcases h with hpos | heq
        · exact unifiedCode_of_pos (CInt.pos_of_ne_of_not_neg h0 (Int32.not_lt.mpr hpos))
        · rw [heq]
          decide
      rw [hcode]
      exact noRawCode_unhandled f args h0 out

theorem no_raw_code_step (os : Os) (is : List (World × Call)) (w : World) (c : Call) :
    (c.op.isSome → NoRawCode (outputOf os (reached os is) w c)) ↔
      NativeResultFits w (reached os is) c := by
  obtain ⟨a, href, -⟩ := reached_noted os is
  cases hop : c.op with
  | none =>
      refine ⟨fun _ op d f hsome => ?_, fun _ h => (by cases h)⟩
      rw [hop] at hsome
      cases hsome
  | some op =>
      unfold NativeResultFits
      simp only [Option.isSome_some, true_implies, hop, Option.some.injEq]
      cases a with
      | idle =>
          have idle : IdleProcess (reached os is) := href
          rw [outputOf_idle idle hop, idle.gState]
          exact ⟨fun _ _ _ _ _ h => (by cases h),
            fun _ => noRawCode_refuse c (by decide) (by decide)⟩
      | live s e =>
          have live : LiveProcess s e (reached os is) := href
          rw [outputOf_live live hop, live.gState, live.gBackendType, familyOf_type s.family_mem]
          simp only [live.bound.target]
          cases hb : s.backing op with
          | none =>
              rw [operate_unsupported hb]
              refine ⟨?_, fun _ => noRawCode_refuse c (by decide) (by decide)⟩
              rintro - op' d f rfl - - hf
              rw [hb] at hf
              cases hf
          | some f =>
              by_cases hok : c.argsValid ∧ c.idFits s.family
              · rw [operate_dispatched hb hok, noRawCode_native_iff]
                constructor
                · rintro h op' d f' rfl - hd hf - -
                  cases hd
                  cases hb.symm.trans hf
                  exact h
                · intro h
                  exact h op s.family f rfl trivial rfl hb hok.1 hok.2
              · rw [operate_invalid hb hok]
                refine ⟨?_, fun _ => noRawCode_refuse c (by decide) (by decide)⟩
                rintro - op' d f' rfl - hd - hargs hfits
                cases hd
                exact absurd ⟨hargs, hfits⟩ hok

/-- In a run every operation reports as documented exactly when every native function
an operation reaches returns a result that the mapping can tell apart. -/
theorem no_raw_code_iff (os : Os) (is : List (World × Call)) :
    (wrapper os).Always (fun _ i o => i.2.op.isSome → NoRawCode o) .start is ↔
      (wrapper os).Always (fun p i _ => NativeResultFits i.1 p i.2) .start is :=
  Mealy.always_congr _ (fun before i => no_raw_code_step os before i.1 i.2) is

theorem raw_code_leaks :
    let w := World.serving ncclRow (.returning (-1))
    (outputOf .linux (reached .linux [(w, .init)]) w .groupStart).ret = rcOf .errNoBackend ∧
      ¬ NoRawCode (outputOf .linux (reached .linux [(w, .init)]) w .groupStart) := by
  intro w
  have hret : (outputOf .linux (reached .linux [(w, .init)]) w .groupStart).ret =
      rcOf .errNoBackend := by decide
  have hcall : (outputOf .linux (reached .linux [(w, .init)]) w .groupStart).events =
      [.native ⟨8⟩ [] (-1)] := by decide
  refine ⟨hret, ?_⟩
  intro hno
  have hother := hno.other .errNoBackend (by decide) (by decide) hret ⟨8⟩ [] (-1)
  rw [hcall] at hother
  exact hother List.mem_cons_self

/-! ## The raw result -/

def lastNonzero (raw : Int32) : Event → Int32
  | .native _ _ rc => if rc ≠ 0 then rc else raw
  | _ => raw

/-- What a caller can note of raw results: nothing outside a lifecycle, zero from a
successful `unicc_init` on, then the last nonzero native result. -/
def noteRaw (raw : Option Int32) (x : (World × Call) × Output) : Option Int32 :=
  let raw := raw.map fun v => x.2.events.foldl lastNonzero v
  match x.1.2 with
  | .init => if x.2.ret = rcOf .ok then some 0 else raw
  | .finalize => if x.2.ret = rcOf .ok then none else raw
  | _ => raw

def lastRaw (trace : List ((World × Call) × Output)) : Option Int32 :=
  Mealy.history noteRaw none trace

theorem lastNonzero_visible (raw : Int32) (es : List Event) :
    (es.filter (·.isVisible)).foldl lastNonzero raw = es.foldl lastNonzero raw := by
  induction es generalizing raw with
  | nil => rfl
  | cons e es ih =>
      cases e with
      | stderr text => exact ih raw
      | _ => exact ih _

theorem lastNonzero_of_loading (raw : Int32) {es : List Event}
    (h : ∀ e ∈ es, e.isLoading = true) : es.foldl lastNonzero raw = raw := by
  induction es with
  | nil => rfl
  | cons e es ih =>
      have hhead := h e List.mem_cons_self
      have htail := ih fun e' he' => h e' (List.mem_cons_of_mem e he')
      cases e with
      | dlopen name handle => exact htail
      | dlclose handle => exact htail
      | _ => cases hhead

def Abstract.raw (a : Abstract) : Option Int32 := a.session?.map fun _ => a.lastError

theorem lastErrorAfter_of_nonneg {rc : Int32} (h : 0 ≤ rc) (e : Int32) :
    (if rc ≠ 0 then rc else e) = lastErrorAfter rc e := by
  unfold lastErrorAfter
  by_cases h0 : rc = 0
  · subst h0
    rfl
  · rw [if_pos h0, if_pos (CInt.pos_of_ne_of_not_neg h0 (Int32.not_lt.mpr h))]

theorem raw_operation (os : Os) {w : World} (hnative : ∀ f args, 0 ≤ (w.invoke f args).rc)
    {a : Abstract} {c : Call} {op : Op} (hop : c.op = some op) :
    a.raw.map ((abstractStep os a w c).2.events.foldl lastNonzero) =
      (abstractStep os a w c).1.raw := by
  cases a with
  | idle =>
      rw [abstractStep_operation_idle hop]
      rfl
  | live s e =>
      rw [abstractStep_operation_live hop]
      cases hb : s.backing op with
      | none =>
          rw [operate_unsupported hb]
          rfl
      | some f =>
          by_cases hok : c.argsValid ∧ c.idFits s.family
          · rw [operate_dispatched hb hok]
            exact congrArg some (lastErrorAfter_of_nonneg (hnative f _) e)
          · rw [operate_invalid hb hok]
            rfl

theorem raw_opening (os : Os) (w : World) {o : Output} (hret : o.ret = rcOf (openSession os w).rc) :
    (openSession os w).next.raw = if o.ret = rcOf .ok then some 0 else none := by
  have hspec := openSession_spec os w
  unfold Opening.next
  rw [hret]
  cases hs : (openSession os w).session with
  | none =>
      rw [hs] at hspec
      rw [if_neg fun h => hspec (rcOf_inj.mp h)]
      rfl
  | some s =>
      rw [hs] at hspec
      rw [if_pos (rcOf_inj.mpr hspec.1)]
      rfl

/-- One call keeps the raw result equal to the caller's note. -/
theorem raw_step (os : Os) (p : Process) (raw : Option Int32) (i : World × Call)
    (h : ∃ a, Refines p a ∧ a.raw = raw) (hnative : ∀ f args, 0 ≤ (i.1.invoke f args).rc) :
    ∃ a, Refines ((wrapper os).step p i).1 a ∧
      a.raw = noteRaw raw (i, ((wrapper os).step p i).2) := by
  obtain ⟨a, href, rfl⟩ := h
  obtain ⟨w, c⟩ := i
  refine ⟨_, (wrapper_simulation os).state p a (w, c) href, ?_⟩
  have hview := (wrapper_simulation os).output p a (w, c) href
  generalize ((wrapper os).step p (w, c)).2 = o at hview
  have hret := congrArg Output.ret hview
  have hevents := congrArg Output.events hview
  have hfold : ∀ v, o.events.foldl lastNonzero v =
      (abstractStep os a w c).2.events.foldl lastNonzero v := by
    intro v
    rw [← lastNonzero_visible]
    exact congrArg (List.foldl lastNonzero v) hevents
  show (abstractStep os a w c).1.raw = noteRaw a.raw ((w, c), o)
  unfold noteRaw
  simp only [hfold]
  cases c with
  | init =>
      cases a with
      | idle => exact raw_opening os w hret
      | live s e =>
          have hrefused : o.ret = rcOf .errAlreadyInitialized := hret
          rw [hrefused, if_neg (by decide)]
          rfl
  | finalize =>
      cases a with
      | idle =>
          have hrefused : o.ret = rcOf .errNotInitialized := hret
          rw [hrefused, if_neg (by decide)]
          rfl
      | live s e =>
          have hdone : o.ret = rcOf .ok := hret
          rw [hdone, if_pos rfl]
          rfl
  | diagnose =>
      cases a with
      | idle => rfl
      | live s e =>
          exact congrArg some (lastNonzero_of_loading e (probeEvents_loading os w s.path)).symm
  | isInitialized | backendName | getLibraryPath | getVersion | printBackendInfo | commAvailable
  | getUniqueIdAvailable | allreduceAvailable | broadcastAvailable | groupStartAvailable
  | groupEndAvailable | getLastError =>
      cases a <;> rfl
  | _ => exact (raw_operation os hnative rfl).symm

/-- With native functions that return no negative result, `unicc_get_last_error` reports
at any moment exactly what the caller can note. -/
theorem raw_error_exact (os : Os) (is : List (World × Call))
    (hnative : ∀ i ∈ is, ∀ f args, 0 ≤ (i.1.invoke f args).rc) (w : World) (r : Ref Int32) :
    outputOf os (reached os is) w (.getLastError (some r)) =
      ⟨rcOf .ok, .int (some { r with val := (lastRaw (recorded os is)).getD 0 }), []⟩ := by
  have hstart : ∃ a, Refines (wrapper os).start a ∧ a.raw = none := ⟨.idle, idle_start, rfl⟩
  obtain ⟨a, href, hraw⟩ := Mealy.history_invariant (wrapper os)
    (fun p raw => ∃ a, Refines p a ∧ a.raw = raw)
    (fun i => ∀ f args, 0 ≤ (i.1.invoke f args).rc) (raw_step os) hstart is hnative
  have hvalue : (reached os is).gLastBackendResult = (lastRaw (recorded os is)).getD 0 := by
    have hnote : a.raw = lastRaw (recorded os is) := hraw
    have hglobal : (reached os is).gLastBackendResult = a.lastError := href.lastError
    rw [hglobal, ← hnote]
    cases a <;> rfl
  rw [← hvalue]
  rfl

theorem raw_error_exact_nccl :
    let w := World.serving ncclRow (.returning 3)
    outputOf .linux (reached .linux [(w, .init), (w, .groupStart), (w, .init)]) w
        (.getLastError (some ⟨⟨16⟩, 0⟩)) =
      ⟨rcOf .ok, .int (some ⟨⟨16⟩, 3⟩), []⟩ := by
  intro w
  have hnative : ∀ i ∈ [(w, Call.init), (w, .groupStart), (w, .init)], ∀ f args,
      0 ≤ (i.1.invoke f args).rc := by
    intro i hi f args
    have hpos : (0 : Int32) ≤ 3 := by decide
    simp only [List.mem_cons, List.not_mem_nil, or_false] at hi
    rcases hi with rfl | rfl | rfl <;> exact hpos
  rw [raw_error_exact .linux [(w, .init), (w, .groupStart), (w, .init)] hnative w ⟨⟨16⟩, 0⟩]
  rfl

end UniCCL
